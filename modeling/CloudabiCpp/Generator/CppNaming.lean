import Mathlib.Data.List.Nodup
import CloudabiCpp.Generator.Abi

/-!
The class `CppNaming`: how names and types are spelled in C++.
-/

namespace CloudabiCpp.Generator.CppNaming

open CloudabiCpp.Generator.Abi

/-- The exceptions that the generator's own code can raise. Its two `raise`
statements are for kinds of types and members that the syntax tree does not have. -/
inductive PyError where
  | indexError
  | valueError
  deriving DecidableEq

def mangle (name : Text) : Except PyError Text :=
  match name with
  | [] => .error .indexError
  | first :: _ =>
      if first.isDigit then
        .ok ('_' :: name)
      else if name ∈ [lit "private", lit "int", lit "delete"] then
        .ok (name ++ ['_'])
      else if name = lit "errno" then
        .ok (lit "error")
      else
        .ok name

def intTypename (name : Text) : Text :=
  if name = lit "char" then lit "char" else lit "std::" ++ name ++ lit "_t"

def atomicTypename (target : Text) : Text :=
  lit "std::atomic<" ++ target ++ ['>']

/-- `'{} {}'.format(self.typename(type), name)`. -/
def declare (name : Text) (type : Text) : Text :=
  type ++ [' '] ++ name

def qualify (const : Bool) (decl : Text) : Text :=
  if const then lit "const " ++ decl else decl

/-- `'{}[{}]'.format(name, type.count)`, after the parentheses. -/
def arrayDeclarator (name : Text) (arrayNeedParens : Bool) (count : Nat) : Text :=
  (if arrayNeedParens then ['('] ++ name ++ [')'] else name) ++
    ['['] ++ Nat.toDigits 10 count ++ [']']

-- `typename` and `vardecl` call each other on the same type; these calls are
-- unfolded here, and `typename_eq_vardecl` and `vardecl_eq_declare` restore them.
mutual

def typename : AbiType → Except PyError Text
  | .void => .ok (lit "void")
  | .int name => .ok (intTypename name)
  | .user name => mangle name
  | .atomic target => (typename target).map atomicTypename
  | .pointer target const => (vardecl target ['*'] true).map (qualify const)
  | .array count element => vardecl element (arrayDeclarator [] false count) false

def vardecl : AbiType → (name : Text) → (arrayNeedParens : Bool) → Except PyError Text
  | .pointer target const, name, _ => (vardecl target ('*' :: name) true).map (qualify const)
  | .array count element, name, arrayNeedParens =>
      vardecl element (arrayDeclarator name arrayNeedParens count) false
  | .void, name, _ => .ok (declare name (lit "void"))
  | .int base, name, _ => .ok (declare name (intTypename base))
  | .user base, name, _ => (mangle base).map (declare name)
  | .atomic target, name, _ => ((typename target).map atomicTypename).map (declare name)

end

/-- The type of the value plays no part. -/
def valname (value : Text) : Except PyError Text := mangle value

def IsBase : AbiType → Prop
  | .pointer _ _ | .array _ _ => False
  | _ => True

theorem typename_eq_vardecl {type : AbiType} (htype : ¬ IsBase type) :
    typename type = vardecl type [] false := by
  cases type with
  | pointer target const => rfl
  | array count element => rfl
  | _ => exact absurd trivial htype

theorem vardecl_eq_declare {type : AbiType} (htype : IsBase type) (name : Text)
    (arrayNeedParens : Bool) :
    vardecl type name arrayNeedParens = (typename type).map (declare name) := by
  cases type with
  | pointer target const => exact htype.elim
  | array count element => exact htype.elim
  | _ => rfl

example : vardecl (.pointer (.array 2 (.pointer (.user (lit "errno")) true)) false)
    (lit "x") false = .ok (lit "const error *(*x)[2]") := by decide +kernel

/-- The words that `mangle` does not let through. -/
def unusable : List Text := [lit "private", lit "int", lit "delete"]

def startsWithDigit (name : Text) : Bool := name.head?.any Char.isDigit

def Legal (name : Text) : Prop := startsWithDigit name = false ∧ name ∉ unusable

instance (name : Text) : Decidable (Legal name) :=
  inferInstanceAs (Decidable (_ ∧ _))

/-- The renaming rules of `mangle`. -/
def Renamed (name text : Text) : Prop :=
  startsWithDigit name = true ∧ text = '_' :: name ∨
    name ∈ unusable ∧ text = name ++ ['_'] ∨
      name = lit "errno" ∧ text = lit "error"

instance (name text : Text) : Decidable (Renamed name text) :=
  inferInstanceAs (Decidable (_ ∨ _))

theorem exists_mangle {name : Text} (hname : name ≠ []) : ∃ text, mangle name = .ok text := by
  obtain ⟨first, rest, rfl⟩ := List.exists_cons_of_ne_nil hname
  dsimp only [mangle]
  split_ifs
  · exact ⟨_, rfl⟩
  · exact ⟨_, rfl⟩
  · exact ⟨_, rfl⟩
  · exact ⟨_, rfl⟩

theorem mangle_cases {name text : Text} (hmangle : mangle name = .ok text) :
    Renamed name text ∨ text = name ∧ Legal name ∧ name ≠ lit "errno" := by
  cases name with
  | nil => cases hmangle
  | cons first rest =>
      dsimp only [mangle] at hmangle
      split_ifs at hmangle with hdigit hword herrno
      · obtain rfl := Except.ok.inj hmangle
        exact Or.inl (Or.inl ⟨hdigit, rfl⟩)
      · obtain rfl := Except.ok.inj hmangle
        exact Or.inl (Or.inr (Or.inl ⟨hword, rfl⟩))
      · obtain rfl := Except.ok.inj hmangle
        exact Or.inl (Or.inr (Or.inr ⟨herrno, rfl⟩))
      · obtain rfl := Except.ok.inj hmangle
        exact Or.inr ⟨rfl, ⟨Bool.eq_false_iff.mpr hdigit, hword⟩, herrno⟩

/-- What a renamed name was before. -/
def original (text : Text) : Text :=
  if text.head? = some '_' then text.tail
  else if text = lit "error" then lit "errno"
  else text.dropLast

theorem original_of_renamed {name text : Text} (hrenamed : Renamed name text) :
    original text = name := by
  rcases hrenamed with ⟨-, rfl⟩ | ⟨hword, rfl⟩ | ⟨rfl, rfl⟩
  · rfl
  · have hall : unusable.all fun word => original (word ++ ['_']) = word := by decide +kernel
    simpa using List.all_eq_true.mp hall name hword
  · decide +kernel

theorem Renamed.injective {a b text : Text} (ha : Renamed a text) (hb : Renamed b text) :
    a = b := by
  rw [← original_of_renamed ha, original_of_renamed hb]

/-- A renamed name is one that `mangle` keeps. -/
theorem Renamed.kept {name text : Text} (hrenamed : Renamed name text) :
    Legal text ∧ text ≠ lit "errno" ∧ text ≠ lit "none" := by
  rcases hrenamed with ⟨-, rfl⟩ | ⟨hword, rfl⟩ | ⟨rfl, rfl⟩
  · have hhead : ∀ word, word.head? ≠ some '_' → '_' :: name ≠ word := by
      rintro word hword rfl
      exact hword rfl
    have hall : unusable.all fun word => word.head? ≠ some '_' := by decide +kernel
    refine ⟨⟨rfl, fun hmem => ?_⟩, hhead _ (by decide +kernel), hhead _ (by decide +kernel)⟩
    exact hhead _ (by simpa using List.all_eq_true.mp hall _ hmem) rfl
  · have hall : unusable.all fun word => Legal (word ++ ['_']) ∧
        word ++ ['_'] ≠ lit "errno" ∧ word ++ ['_'] ≠ lit "none" := by decide +kernel
    simpa using List.all_eq_true.mp hall name hword
  · decide +kernel

theorem legal_of_mangle {name text : Text} (hmangle : mangle name = .ok text) : Legal text := by
  rcases mangle_cases hmangle with hrenamed | ⟨rfl, hlegal, -⟩
  · exact hrenamed.kept.1
  · exact hlegal

/-- Two names share a spelling only if one of them is the spelling of the other. -/
theorem mangle_eq_mangle {a b text : Text} (ha : mangle a = .ok text)
    (hb : mangle b = .ok text) : a = b ∨ Renamed a b ∨ Renamed b a := by
  rcases mangle_cases ha with hra | ⟨rfl, -, -⟩
  · rcases mangle_cases hb with hrb | ⟨rfl, -, -⟩
    · exact Or.inl (hra.injective hrb)
    · exact Or.inr (Or.inl hra)
  · rcases mangle_cases hb with hrb | ⟨rfl, -, -⟩
    · exact Or.inr (Or.inr hrb)
    · exact Or.inl rfl

theorem mangle_of_renamed {name text : Text} (hrenamed : Renamed name text) :
    mangle name = .ok text := by
  rcases hrenamed with ⟨hdigit, rfl⟩ | ⟨hword, rfl⟩ | ⟨rfl, rfl⟩
  · cases name with
    | nil => cases hdigit
    | cons first rest => exact if_pos hdigit
  · have hall : unusable.all fun word => mangle word = .ok (word ++ ['_']) := by decide +kernel
    simpa using List.all_eq_true.mp hall name hword
  · decide +kernel

theorem Renamed.not_legal {name text : Text} (hrenamed : Renamed name text)
    (herrno : name ≠ lit "errno") : ¬ Legal name := by
  rintro ⟨hdigit, hword⟩
  rcases hrenamed with ⟨hdigit', -⟩ | ⟨hword', -⟩ | ⟨heq, -⟩
  · exact absurd (hdigit.symm.trans hdigit') (by decide)
  · exact hword hword'
  · exact herrno heq

theorem mangle_of_legal {name : Text} (hname : name ≠ []) (hlegal : Legal name)
    (herrno : name ≠ lit "errno") : mangle name = .ok name := by
  obtain ⟨text, hmangle⟩ := exists_mangle hname
  rcases mangle_cases hmangle with hrenamed | ⟨rfl, -, -⟩
  · exact absurd hlegal (hrenamed.not_legal herrno)
  · exact hmangle

/-- The spelling of a name, where it has one. -/
def spelled (name : Text) : Text := (mangle name).toOption.getD []

theorem mangle_eq_spelled {name : Text} (hname : name ≠ []) :
    mangle name = .ok (spelled name) := by
  obtain ⟨text, hmangle⟩ := exists_mangle hname
  rw [spelled, hmangle]
  rfl

theorem spelled_of_mangle {name text : Text} (hmangle : mangle name = .ok text) :
    spelled name = text := by
  rw [spelled, hmangle]
  rfl

theorem legal_spelled {name : Text} (hname : name ≠ []) : Legal (spelled name) :=
  legal_of_mangle (mangle_eq_spelled hname)

/-- Distinct names keep distinct spellings exactly if none is the spelling of
another. -/
theorem nodup_spelled_iff {names : List Text} (hnames : ∀ name ∈ names, name ≠ [])
    (hnodup : names.Nodup) :
    (names.map spelled).Nodup ↔ ∀ a ∈ names, ∀ b ∈ names, ¬ Renamed a b := by
  rw [List.nodup_map_iff_inj_on hnodup]
  constructor
  · intro hinjective a ha b hb hrenamed
    obtain ⟨hlegal, herrno, -⟩ := hrenamed.kept
    have hspelled : spelled a = spelled b := by
      rw [spelled_of_mangle (mangle_of_renamed hrenamed),
        spelled_of_mangle (mangle_of_legal (hnames b hb) hlegal herrno)]
    obtain rfl := hinjective a ha b hb hspelled
    exact hrenamed.not_legal herrno hlegal
  · intro hclear a ha b hb hspelled
    have hmangle := mangle_eq_spelled (hnames b hb)
    rw [← hspelled] at hmangle
    rcases mangle_eq_mangle (mangle_eq_spelled (hnames a ha)) hmangle with heq | hab | hba
    · exact heq
    · exact absurd hab (hclear a ha b hb)
    · exact absurd hba (hclear b hb a ha)

end CloudabiCpp.Generator.CppNaming

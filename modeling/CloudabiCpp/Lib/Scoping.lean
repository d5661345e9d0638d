import Mathlib.Logic.Function.Basic
import CloudabiCpp.Lib.Headers

/-!
Type names in the headers of a namespace: each is found where it is used, and is
defined where an object of the type is needed. Inside a class the members that are
declared already hide the types of their names, in a function its parameters do.
-/

namespace CloudabiCpp.Lib.Scoping

open CloudabiCpp.Lib.Lexer
open CloudabiCpp.Lib.Declarations
open CloudabiCpp.Lib.Aggregates
open CloudabiCpp.Lib.Headers

/-- What is known of a type that is declared: whether it is defined, and the access
paths into an object of it. -/
structure Known where
  defined : Bool
  paths : List (List Word)

/-- The types that the headers of a namespace find: those declared in the namespace
itself, around it and in other namespaces, and the templates whose objects contain
one of their argument. -/
structure Scope where
  name : Word
  own : Word → Option Known
  outer : Word → Option Known
  elsewhere : List Word → Option Known
  holders : List (List Word)

def voidWord : Word := ['v', 'o', 'i', 'd']

namespace Scope

def visible (s : Scope) (w : Word) : Option Known := (s.own w).or (s.outer w)

/-- A type name is looked up behind the names in `hidden`, which are those of members
or parameters. In front of `::` only a type hides a namespace. -/
def find (s : Scope) (hidden : List Word) : List Word → Option Known
  | [] => none
  | [w] =>
      if w ∈ fundamentalWords then some ⟨w != voidWord, []⟩
      else if w ∈ hidden then none
      else s.visible w
  | w :: path =>
      if (s.visible w).isSome then none
      else if w = s.name then
        match path with
        | [type] => s.own type
        | _ => none
      else s.elsewhere (w :: path)

def known (s : Scope) (hidden : List Word) : CType → Option Known
  | .named _ path => s.find hidden path
  | .template _ path argument => do
      let _ ← s.find hidden path
      let k ← s.known hidden argument
      some ⟨path ∉ s.holders || k.defined, []⟩
  | .pointer _ target => (s.known hidden target).map fun _ => ⟨true, []⟩
  | .array _ element => (s.known hidden element).map fun k => ⟨k.defined, []⟩

/-- An object of the type can be declared. -/
def Usable (s : Scope) (hidden : List Word) (type : CType) : Prop :=
  ∃ k, s.known hidden type = some k ∧ k.defined = true

/-- A type of this name is defined. -/
def Defines (s : Scope) (w : Word) : Prop := ∃ k, s.visible w = some k ∧ k.defined = true

theorem known_addConst (s : Scope) (hidden : List Word) (type : CType) :
    s.known hidden type.addConst = s.known hidden type := by
  induction type with
  | named const path => rfl
  | template const path argument ih => rfl
  | pointer const target ih => rfl
  | array count element ih => rw [CType.addConst, known, known, ih]

end Scope

mutual

/-- The names that members declare in the class around them, the last one first. -/
def introduced : List Member → List Word
  | [] => []
  | m :: ms => introduced ms ++ memberIntroduces m
termination_by structural ms => ms

def memberIntroduces : Member → List Word
  | .field _ name => [name]
  | .union ms => introduced ms
  | .struct _ name => [name]
termination_by structural m => m

end

theorem introduced_append (ms more : List Member) :
    introduced (ms ++ more) = introduced more ++ introduced ms := by
  induction ms with
  | nil => rw [List.nil_append, introduced, List.append_nil]
  | cons m ms ih => rw [List.cons_append, introduced, ih, introduced, List.append_assoc]

section Members

variable (s : Scope)

mutual

/-- The access paths into an object with such members. -/
def paths : List Member → List (List Word)
  | [] => []
  | m :: ms => memberPaths m ++ paths ms
termination_by structural ms => ms

def memberPaths : Member → List (List Word)
  | .field type name =>
      [name] :: ((s.known [] type).elim [] Known.paths).map (name :: ·)
  | .union ms => paths ms
  | .struct ms name => [name] :: (paths ms).map (name :: ·)
termination_by structural m => m

end

theorem paths_append (ms more : List Member) :
    paths s (ms ++ more) = paths s ms ++ paths s more := by
  induction ms with
  | nil => rfl
  | cons m ms ih => rw [List.cons_append, paths, ih, paths, List.append_assoc]

mutual

/-- Each member is of a type that is usable behind the members before it. -/
def MembersScoped : List Member → (hidden : List Word) → Prop
  | [], _ => True
  | m :: ms, hidden =>
      MemberScoped m hidden ∧ MembersScoped ms (memberIntroduces m ++ hidden)
termination_by structural ms => ms

def MemberScoped : Member → (hidden : List Word) → Prop
  | .field type _, hidden => s.Usable hidden type
  | .union ms, hidden => MembersScoped ms hidden
  | .struct ms _, hidden => MembersScoped ms hidden
termination_by structural m => m

end

theorem membersScoped_append (ms more : List Member) (hidden : List Word) :
    MembersScoped s (ms ++ more) hidden ↔
      MembersScoped s ms hidden ∧ MembersScoped s more (introduced ms ++ hidden) := by
  induction ms generalizing hidden with
  | nil => simp [MembersScoped, introduced]
  | cons m ms ih =>
      rw [List.cons_append, MembersScoped, MembersScoped, ih, and_assoc, introduced,
        List.append_assoc]

end Members

namespace Scope

def add (s : Scope) (w : Word) (k : Option Known) : Scope :=
  { s with own := Function.update s.own w k }

/-- A declaration does not undo a definition. -/
def declare (s : Scope) (w : Word) : Scope :=
  s.add w ((s.own w).or (some ⟨false, []⟩))

/-- The scope behind an item. -/
def after (s : Scope) : Item → Scope
  | .typeAlias name type => s.add name (s.known [] type)
  | .enumeration name _ _ => s.add name (some ⟨true, []⟩)
  | .declaration name => s.declare name
  | .struct name ms => s.add name (some ⟨true, paths (s.declare name) ms⟩)
  | .operator _ | .assertion _ _ => s

def extend (s : Scope) (is : List Item) : Scope := is.foldl after s

@[simp] theorem extend_nil (s : Scope) : s.extend [] = s := rfl

theorem extend_cons (s : Scope) (i : Item) (is : List Item) :
    s.extend (i :: is) = (s.after i).extend is := rfl

theorem extend_append (s : Scope) (is js : List Item) :
    s.extend (is ++ js) = (s.extend is).extend js :=
  List.foldl_append

theorem visible_add (s : Scope) (w : Word) (k : Known) : (s.add w (some k)).visible w = some k := by
  simp [visible, add]

theorem visible_add_of_ne (s : Scope) {w name : Word} (hne : w ≠ name) (k : Option Known) :
    (s.add name k).visible w = s.visible w := by
  simp [visible, add, hne]

theorem declare_eq {s : Scope} {w : Word} (hw : (s.own w).isSome) : s.declare w = s := by
  obtain ⟨k, hk⟩ := Option.isSome_iff_exists.mp hw
  rw [declare, add, hk, Option.some_or, ← hk, Function.update_eq_self]

end Scope

section Items

/-- The types of the parameters, each behind the parameters before it. -/
def ParametersScoped (s : Scope) : (earlier : List Word) → List (Word × Word) → Prop
  | _, [] => True
  | earlier, (type, name) :: rest =>
      s.Usable earlier (.named false [type]) ∧ ParametersScoped s (name :: earlier) rest

/-- The types of an expression in a function with the given parameters. -/
def ExprScoped (s : Scope) (locals : List Word) : Expr → Prop
  | .name w => w ∈ locals
  | .convert type e => s.Usable locals (.named false [type]) ∧ ExprScoped s locals e
  | .complement e => ExprScoped s locals e
  | .binary _ left right => ExprScoped s locals left ∧ ExprScoped s locals right

/-- The struct is defined and the path leads to a member of it. -/
def MeasureScoped (s : Scope) (m : Measure) : Prop :=
  ∃ k, s.find [] [m.struct] = some k ∧ k.defined = true ∧ (m.path = [] ∨ m.path ∈ k.paths)

/-- An alias of a type that is only defined later is not provided for. -/
def ItemScoped (s : Scope) : Item → Prop
  | .typeAlias _ type => s.Usable [] type
  | .enumeration _ underlying _ => s.Usable [] (.named false [underlying])
  | .operator f =>
      s.Usable [] (.named false [f.result]) ∧ ParametersScoped s [] f.parameters ∧
        ExprScoped s (f.parameters.map Prod.snd) f.body
  | .declaration _ => True
  | .struct name ms => MembersScoped (s.declare name) ms []
  | .assertion left right => MeasureScoped s left ∧ MeasureScoped s right

/-- Every item finds what it needs in front of it. -/
def WellScoped (s : Scope) : List Item → Prop
  | [] => True
  | i :: is => ItemScoped s i ∧ WellScoped (s.after i) is

theorem wellScoped_append {s : Scope} {is js : List Item} :
    WellScoped s (is ++ js) ↔ WellScoped s is ∧ WellScoped (s.extend is) js := by
  induction is generalizing s with
  | nil => simp [WellScoped]
  | cons i is ih => rw [List.cons_append, WellScoped, WellScoped, ih, and_assoc, Scope.extend_cons]

/-- Items that change nothing and find what they need. -/
theorem wellScoped_of_unchanged {s : Scope} {is : List Item}
    (his : ∀ i ∈ is, s.after i = s ∧ ItemScoped s i) : WellScoped s is := by
  induction is with
  | nil => trivial
  | cons i is ih =>
      obtain ⟨⟨hsame, hi⟩, hrest⟩ := List.forall_mem_cons.mp his
      exact ⟨hi, by rw [hsame]; exact ih hrest⟩

/-- Of items that come in groups, each group finds what it needs. -/
theorem wellScoped_flatMap {α : Type*} {s : Scope} {xs : List α} {f : α → List Item} :
    WellScoped s (xs.flatMap f) ↔
      ∀ pre x post, xs = pre ++ x :: post → WellScoped (s.extend (pre.flatMap f)) (f x) := by
  induction xs generalizing s with
  | nil => simp [WellScoped]
  | cons x xs ih =>
      rw [List.flatMap_cons, wellScoped_append, ih]
      constructor
      · rintro ⟨hfirst, hrest⟩ pre y post heq
        rcases List.cons_eq_append_iff.mp heq with ⟨rfl, hcons⟩ | ⟨pre', rfl, hxs⟩
        · obtain ⟨rfl, -⟩ := List.cons.inj hcons
          simpa using hfirst
        · rw [List.flatMap_cons, Scope.extend_append]
          exact hrest pre' y post hxs
      · intro hall
        constructor
        · simpa using hall [] x xs rfl
        · rintro pre y post rfl
          rw [← Scope.extend_append, ← List.flatMap_cons]
          exact hall (x :: pre) y post rfl

end Items

section Growth

/-- The type that an item defines. -/
def definedType : Item → Option Word
  | .typeAlias name _ | .enumeration name _ _ | .struct name _ => some name
  | .declaration _ | .operator _ | .assertion _ _ => none

/-- Of the second scope more is known in the namespace: these types are declared, and
those of them are defined. -/
structure Grows (s s' : Scope) (declared defined : Word → Prop) : Prop where
  name : s'.name = s.name
  outer : s'.outer = s.outer
  elsewhere : s'.elsewhere = s.elsewhere
  holders : s'.holders = s.holders
  isSome : ∀ w, (s'.own w).isSome ↔ (s.own w).isSome ∨ declared w
  isDefined : ∀ w, (∃ k, s'.own w = some k ∧ k.defined = true) ↔
    (∃ k, s.own w = some k ∧ k.defined = true) ∨ defined w
  kept : ∀ w, ¬ declared w → s'.own w = s.own w

namespace Grows

theorem refl (s : Scope) : Grows s s (fun _ => False) (fun _ => False) :=
  ⟨rfl, rfl, rfl, rfl, by simp, by simp, fun _ _ => rfl⟩

theorem trans {s s' s'' : Scope} {declared defined declared' defined' : Word → Prop}
    (h : Grows s s' declared defined) (h' : Grows s' s'' declared' defined') :
    Grows s s'' (fun w => declared w ∨ declared' w) (fun w => defined w ∨ defined' w) where
  name := h'.name.trans h.name
  outer := h'.outer.trans h.outer
  elsewhere := h'.elsewhere.trans h.elsewhere
  holders := h'.holders.trans h.holders
  isSome := fun w => by rw [h'.isSome, h.isSome, or_assoc]
  isDefined := fun w => by rw [h'.isDefined, h.isDefined, or_assoc]
  kept := fun w hw => by
    rw [not_or] at hw
    rw [h'.kept w hw.2, h.kept w hw.1]

theorem congr {s s' : Scope} {declared defined declared' defined' : Word → Prop}
    (h : Grows s s' declared defined) (hdeclared : ∀ w, declared w ↔ declared' w)
    (hdefined : ∀ w, defined w ↔ defined' w) : Grows s s' declared' defined' := by
  obtain rfl : declared = declared' := funext fun w => propext (hdeclared w)
  obtain rfl : defined = defined' := funext fun w => propext (hdefined w)
  exact h

theorem add (s : Scope) (name : Word) (defines : Prop) {k : Known}
    (hk : k.defined = true ↔ (∃ k, s.own name = some k ∧ k.defined = true) ∨ defines) :
    Grows s (s.add name (some k)) (· = name) (fun w => w = name ∧ defines) := by
  refine ⟨rfl, rfl, rfl, rfl, fun w => ?_, fun w => ?_, fun w hw => Function.update_of_ne hw _ _⟩
  · rcases eq_or_ne w name with rfl | hne
    · simp [Scope.add]
    · simp [Scope.add, hne]
  · rcases eq_or_ne w name with rfl | hne
    · simpa [Scope.add] using hk
    · simp [Scope.add, hne]

theorem after (s : Scope) (i : Item)
    (halias : ∀ name type, i = .typeAlias name type → s.Usable [] type) :
    Grows s (s.after i) (fun w => i.declaredType = some w) (fun w => definedType i = some w) := by
  cases i with
  | typeAlias name type =>
      obtain ⟨k, hk, hdefined⟩ := halias name type rfl
      have hadd := add s name True (k := k) (by simp [hdefined])
      rw [Scope.after, hk]
      exact hadd.congr (by simp [Item.declaredType, eq_comm]) (by simp [definedType, eq_comm])
  | enumeration name underlying values =>
      have hadd := add s name True (k := ⟨true, []⟩) (by simp)
      exact hadd.congr (by simp [Item.declaredType, eq_comm]) (by simp [definedType, eq_comm])
  | struct name ms =>
      have hadd := add s name True (k := ⟨true, paths (s.declare name) ms⟩) (by simp)
      exact hadd.congr (by simp [Item.declaredType, eq_comm]) (by simp [definedType, eq_comm])
  | declaration name =>
      have hdeclare : ∃ k : Known, (s.own name).or (some ⟨false, []⟩) = some k ∧
          (k.defined = true ↔ (∃ k, s.own name = some k ∧ k.defined = true) ∨ False) := by
        cases s.own name with
        | none => exact ⟨_, rfl, by simp⟩
        | some k => exact ⟨k, rfl, by simp⟩
      obtain ⟨k, hk, hdefined⟩ := hdeclare
      have hadd := add s name False hdefined
      rw [Scope.after, Scope.declare, hk]
      exact hadd.congr (by simp [Item.declaredType, eq_comm]) (by simp [definedType])
  | operator f => exact (refl s).congr (by simp [Item.declaredType]) (by simp [definedType])
  | assertion left right =>
      exact (refl s).congr (by simp [Item.declaredType]) (by simp [definedType])

/-- Aliases apart, growth does not depend on the items being well scoped. -/
theorem extend {s : Scope} {is : List Item}
    (halias : ∀ pre name type post, is = pre ++ .typeAlias name type :: post →
      (s.extend pre).Usable [] type) :
    Grows s (s.extend is) (fun w => ∃ i ∈ is, i.declaredType = some w)
      (fun w => ∃ i ∈ is, definedType i = some w) := by
  induction is generalizing s with
  | nil => exact (refl s).congr (by simp) (by simp)
  | cons i is ih =>
      have hfirst := after s i fun name type heq => halias [] name type is (by rw [heq]; rfl)
      have hrest := ih (s := s.after i) fun pre name type post heq =>
        halias (i :: pre) name type post (by rw [heq]; rfl)
      exact (hfirst.trans hrest).congr (by simp) (by simp)

theorem of_wellScoped {s : Scope} {is : List Item} (his : WellScoped s is) :
    Grows s (s.extend is) (fun w => ∃ i ∈ is, i.declaredType = some w)
      (fun w => ∃ i ∈ is, definedType i = some w) := by
  apply extend
  rintro pre name type post rfl
  exact (wellScoped_append.mp his).2.1

theorem visible_isSome {s s' : Scope} {declared defined : Word → Prop}
    (h : Grows s s' declared defined) (w : Word) :
    (s'.visible w).isSome ↔ (s.visible w).isSome ∨ declared w := by
  have hown := h.isSome w
  simp only [Scope.visible, h.outer, Option.isSome_or, Bool.or_eq_true, hown]
  tauto

theorem visible_of_not {s s' : Scope} {declared defined : Word → Prop}
    (h : Grows s s' declared defined) {w : Word} (hw : ¬ declared w) :
    s'.visible w = s.visible w := by
  rw [Scope.visible, h.kept w hw, h.outer, Scope.visible]

theorem defines_iff {s s' : Scope} {declared defined : Word → Prop}
    (h : Grows s s' declared defined) (hfresh : ∀ w, declared w → s.visible w = none)
    (hle : ∀ w, defined w → declared w) (w : Word) :
    s'.Defines w ↔ s.Defines w ∨ defined w := by
  by_cases hw : declared w
  · have hnone := hfresh w hw
    obtain ⟨hown, houter⟩ := Option.or_eq_none_iff.mp hnone
    have hdefined := h.isDefined w
    simp only [hown, reduceCtorEq, false_and, exists_false, false_or] at hdefined
    simp only [Scope.Defines, hnone, reduceCtorEq, false_and, exists_false, false_or]
    rw [Scope.visible, h.outer, houter, Option.or_none]
    exact hdefined
  · have hnot : ¬ defined w := fun hdefined => hw (hle w hdefined)
    rw [Scope.Defines, h.visible_of_not hw, or_iff_left hnot]
    rfl

end Grows

end Growth

end CloudabiCpp.Lib.Scoping

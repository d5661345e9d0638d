import Mathlib.Data.Fintype.Basic
import Mathlib.Data.Finset.BooleanAlgebra
import CloudabiCpp.Lib.Headers

/-!
The value of an operator function that is declared in a header. Operands narrower
than `int` are promoted to it, and a conversion is modulo a power of two; scoped
enumerations are converted only where the program says so.
-/

namespace CloudabiCpp.Lib.Expressions

open CloudabiCpp.Lib.Lexer
open CloudabiCpp.Lib.Declarations
open CloudabiCpp.Lib.Headers

structure IntType where
  width : Nat
  signed : Bool
  deriving DecidableEq

/-- `int`. -/
def int : IntType := ⟨32, true⟩

/-- The type can hold the number. -/
def IntType.Holds (type : IntType) (n : Int) : Prop :=
  (if type.signed then -2 ^ (type.width - 1) else 0) ≤ n ∧
    n < if type.signed then 2 ^ (type.width - 1) else 2 ^ type.width

instance (type : IntType) (n : Int) : Decidable (type.Holds n) :=
  inferInstanceAs (Decidable (_ ∧ _))

inductive ValueType where
  | integer (type : IntType)
  | scoped (name : Word) (underlying : IntType)
  deriving DecidableEq

def ValueType.underlying : ValueType → IntType
  | .integer type => type
  | .scoped _ underlying => underlying

structure Value where
  type : ValueType
  bits : BitVec type.underlying.width

/-- The value in another width, modulo a power of two. -/
def resize (type : IntType) (bits : BitVec type.width) (width : Nat) : BitVec width :=
  if type.signed then bits.signExtend width else bits.setWidth width

def Value.convert (v : Value) (type : ValueType) : Value where
  type := type
  bits := resize v.type.underlying v.bits type.underlying.width

def promotedType (type : IntType) : IntType :=
  if type.width < int.width then int else type

/-- Integral promotion, which a scoped enumeration does not take part in. -/
def Value.promote (v : Value) : Option Value :=
  match v.type with
  | .integer type => some (v.convert (.integer (promotedType type)))
  | .scoped _ _ => none

/-- The type that promoted operands are brought to. -/
def commonType (left right : IntType) : IntType :=
  if left.width = right.width then ⟨left.width, left.signed && right.signed⟩
  else if left.width < right.width then right
  else left

def bitwise (op : Char) {w : Nat} (x y : BitVec w) : Option (BitVec w) :=
  if op = '|' then some (x ||| y)
  else if op = '&' then some (x &&& y)
  else none

def Value.binary (op : Char) (left right : Value) : Option Value := do
  let left ← left.promote
  let right ← right.promote
  let type := commonType left.type.underlying right.type.underlying
  let bits ← bitwise op (left.convert (.integer type)).bits (right.convert (.integer type)).bits
  some ⟨.integer type, bits⟩

def Value.complement (v : Value) : Option Value := do
  let v ← v.promote
  some ⟨v.type, ~~~v.bits⟩

section Evaluation

variable (types : Word → Option ValueType)

/-- A name is that of a parameter if there is one, also where a type is expected. -/
def eval (locals : List (Word × Value)) : Expr → Option Value
  | .name w => (locals.find? (·.1 = w)).map Prod.snd
  | .convert w e => do
      let type ← if w ∈ locals.map Prod.fst then none else types w
      let v ← eval locals e
      some (v.convert type)
  | .complement e => do
      let v ← eval locals e
      v.complement
  | .binary op left right => do
      let left ← eval locals left
      let right ← eval locals right
      left.binary op right

/-- The types of parameters, each of which is looked up behind the ones before. -/
def parameterTypes : (earlier : List Word) → List (Word × Word) → List (Option ValueType)
  | _, [] => []
  | earlier, (type, name) :: rest =>
      (if type ∈ earlier then none else types type) :: parameterTypes (name :: earlier) rest

def Takes (f : OperatorFunction) (arguments : List Value) : Prop :=
  parameterTypes types [] f.parameters = arguments.map fun v => some v.type

instance (f : OperatorFunction) (arguments : List Value) : Decidable (Takes types f arguments) :=
  inferInstanceAs (Decidable (_ = _))

/-- A call; nothing converts the result of its own accord. -/
def call (f : OperatorFunction) (arguments : List Value) : Option Value :=
  match eval types ((f.parameters.map Prod.snd).zip arguments) f.body with
  | some v => if types f.result = some v.type then some v else none
  | none => none

def operatorFunctions (header : List Item) : List OperatorFunction :=
  header.filterMap fun i =>
    match i with
    | .operator f => some f
    | _ => none

/-- The call of an operator that the header overloads; it must not be ambiguous. -/
def callOperator (header : List Item) (op : Char) (arguments : List Value) : Option Value :=
  match (operatorFunctions header).filter fun f => f.op = op ∧ Takes types f arguments with
  | [f] => call types f arguments
  | _ => none

end Evaluation

/-- The underlying type and the enumerators of an enumeration. -/
def findEnumeration (header : List Item) (name : Word) : Option (Word × List (Word × Word)) :=
  header.findSome? fun i =>
    match i with
    | .enumeration declared underlying values =>
        if declared = name then some (underlying, values) else none
    | _ => none

section Names

variable {α : Type*}

/-- What a name stands for around the header, unless it is one of those that hide it. -/
def around (outer : Word → Option α) (hidden : List Word) (name : Word) : Option α :=
  if name ∈ hidden then none else outer name

/-- The names of types in the header; they hide those around it. -/
def typeNames (header : List Item) : List Word := header.filterMap Item.declaredType

/-- What the item says that a name stands for. -/
def standsFor (ctypes : Word → Option IntType) (name : Word) : Item → Option (Option ValueType)
  | .typeAlias declared type =>
      if declared = name then
        match type with
        | .named _ [ctype] => some ((ctypes ctype).map .integer)
        | _ => some none
      else none
  | .enumeration declared ctype _ =>
      if declared = name then some ((ctypes ctype).map (.scoped name)) else none
  | .declaration declared | .struct declared _ => if declared = name then some none else none
  | .operator _ | .assertion _ _ => none

/-- The integer types that names stand for, if the header is read after the
declarations of `ctypes`. -/
def typesIn (ctypes : Word → Option IntType) (header : List Item) (name : Word) :
    Option ValueType :=
  (header.findSome? (standsFor (around ctypes (typeNames header)) name)).getD
    ((ctypes name).map .integer)

/-- The number that initializes an enumerator: it is written out, or a constant
around the header. -/
def initializer (constants : Word → Option Int) (w : Word) : Option Int :=
  ((number w).map Int.ofNat).or (constants w)

/-- The value of an enumerator. Its initializer must fit into the underlying type
and does not find constants behind the enumerators before it. -/
def enumerator (ctypes : Word → Option IntType) (constants : Word → Option Int)
    (header : List Item) (type name : Word) : Option Value := do
  let (ctype, values) ← findEnumeration header type
  let underlying ← around ctypes (typeNames header) ctype
  let value ← values.find? (·.1 = name)
  let earlier := (values.takeWhile (·.1 ≠ name)).map Prod.fst
  let n ← initializer (around constants (earlier ++ typeNames header)) value.2
  if underlying.Holds n then
    some ⟨.scoped type underlying, BitVec.ofInt underlying.width n⟩
  else none

end Names

section Lookup

variable {α β : Type*}

theorem findSome?_eq_some_of_unique {f : α → Option β} {xs : List α} {b : β}
    (hex : ∃ x ∈ xs, f x = some b) (hunique : ∀ x ∈ xs, ∀ b', f x = some b' → b' = b) :
    xs.findSome? f = some b := by
  obtain ⟨x, hx, hb⟩ := hex
  rcases hfind : xs.findSome? f with _ | b'
  · have hnone := List.findSome?_eq_none_iff.mp hfind x hx
    rw [hb] at hnone
    cases hnone
  · obtain ⟨y, hy, hb'⟩ := List.exists_of_findSome?_eq_some hfind
    rw [hunique y hy b' hb']

theorem flatMap_eq_of_unique {f : α → List β} {xs : List α} (hnodup : xs.Nodup) {x : α}
    (hx : x ∈ xs) (hothers : ∀ y ∈ xs, y ≠ x → f y = []) : xs.flatMap f = f x := by
  induction xs with
  | nil => exact absurd hx List.not_mem_nil
  | cons y ys ih =>
      obtain ⟨hy, hys⟩ := List.nodup_cons.mp hnodup
      rw [List.flatMap_cons]
      rcases List.mem_cons.mp hx with rfl | hmem
      · have hrest : ys.flatMap f = [] := List.flatMap_eq_nil_iff.mpr fun z hz =>
          hothers z (List.mem_cons_of_mem x hz) fun heq => hy (heq ▸ hz)
        rw [hrest, List.append_nil]
      · have hfirst := hothers y List.mem_cons_self fun heq => hy (heq ▸ hmem)
        rw [hfirst, List.nil_append]
        exact ih hys hmem fun z hz => hothers z (List.mem_cons_of_mem y hz)

theorem find?_fst_of_nodup [DecidableEq α] {xs : List (α × β)} (hnodup : (xs.map Prod.fst).Nodup)
    {x : α × β} (hx : x ∈ xs) : xs.find? (·.1 = x.1) = some x := by
  induction xs with
  | nil => exact absurd hx List.not_mem_nil
  | cons y xs ih =>
      obtain ⟨hy, hnodup⟩ := List.nodup_cons.mp hnodup
      rcases List.mem_cons.mp hx with rfl | hrest
      · simp
      · have hne : y.1 ≠ x.1 := by
          intro heq
          exact hy (heq ▸ List.mem_map_of_mem hrest)
        rw [List.find?_cons_of_neg (by simpa using hne)]
        exact ih hnodup hrest

theorem findEnumeration_eq_some {header : List Item} {name underlying : Word}
    {values : List (Word × Word)} (hmem : .enumeration name underlying values ∈ header)
    (hunique : ∀ underlying' values', .enumeration name underlying' values' ∈ header →
      underlying' = underlying ∧ values' = values) :
    findEnumeration header name = some (underlying, values) := by
  refine findSome?_eq_some_of_unique ⟨_, hmem, if_pos rfl⟩ ?_
  rintro i hi ⟨underlying', values'⟩ hfound
  split at hfound
  · split_ifs at hfound with hname
    obtain ⟨rfl, rfl⟩ := Prod.mk.inj (Option.some.inj hfound)
    obtain ⟨rfl, rfl⟩ := hunique _ _ (hname ▸ hi)
    rfl
  · cases hfound

theorem declaredType_of_standsFor {ctypes : Word → Option IntType} {name : Word} {i : Item}
    {type : Option ValueType} (hfor : standsFor ctypes name i = some type) :
    i.declaredType = some name := by
  cases i with
  | operator f => cases hfor
  | assertion left right => cases hfor
  | _ =>
      unfold standsFor at hfor
      dsimp only at hfor
      split_ifs at hfor with hname
      exact congrArg some hname

theorem around_of_not_mem {outer : Word → Option α} {hidden : List Word} {name : Word}
    (hname : name ∉ hidden) : around outer hidden name = outer name := if_neg hname

theorem typesIn_outside (ctypes : Word → Option IntType) {header : List Item} {name : Word}
    (hname : name ∉ typeNames header) :
    typesIn ctypes header name = (ctypes name).map .integer := by
  rw [typesIn, List.findSome?_eq_none_iff.mpr, Option.getD_none]
  intro i hi
  rcases hfor : standsFor (around ctypes (typeNames header)) name i with _ | type
  · rfl
  · exact absurd (List.mem_filterMap.mpr ⟨i, hi, declaredType_of_standsFor hfor⟩) hname

/-- An enumeration that is the only type of its name. -/
theorem typesIn_enumeration {ctypes : Word → Option IntType} {header : List Item}
    {name ctype : Word} {values : List (Word × Word)}
    (hmem : .enumeration name ctype values ∈ header)
    (hunique : ∀ i ∈ header, i.declaredType = some name → i = .enumeration name ctype values)
    (hctype : ctype ∉ typeNames header) :
    typesIn ctypes header name = (ctypes ctype).map (.scoped name) := by
  have hfor : standsFor (around ctypes (typeNames header)) name (.enumeration name ctype values) =
      some ((ctypes ctype).map (.scoped name)) := by
    rw [standsFor, if_pos rfl, around_of_not_mem hctype]
  rw [typesIn, findSome?_eq_some_of_unique ⟨_, hmem, hfor⟩, Option.getD_some]
  intro i hi type hi'
  rw [hunique i hi (declaredType_of_standsFor hi'), hfor] at hi'
  exact (Option.some.inj hi').symm

end Lookup

section Bits

/-- The places where a bit is set. -/
def bitSet {w : Nat} (bits : BitVec w) : Finset (Fin w) :=
  Finset.univ.filter fun i => bits.getLsbD i = true

variable {w : Nat}

theorem bitSet_or (x y : BitVec w) : bitSet (x ||| y) = bitSet x ∪ bitSet y := by
  ext i
  simp [bitSet]

theorem bitSet_and (x y : BitVec w) : bitSet (x &&& y) = bitSet x ∩ bitSet y := by
  ext i
  simp [bitSet]

theorem bitSet_not (x : BitVec w) : bitSet (~~~x) = (bitSet x)ᶜ := by
  ext i
  simp [bitSet]

theorem bitSet_zero : bitSet (0#w) = ∅ := by
  simp only [bitSet, BitVec.getLsbD_zero, Bool.false_eq_true, Finset.filter_false]

theorem getLsbD_resize {type : IntType} (bits : BitVec type.width) {width i : Nat}
    (hi : i < width) (hin : i < type.width) :
    (resize type bits width).getLsbD i = bits.getLsbD i := by
  unfold resize
  split
  · rw [BitVec.getLsbD_signExtend]
    simp [hi, hin]
  · rw [BitVec.getLsbD_setWidth]
    simp [hi]

theorem width_le_promotedType (type : IntType) : type.width ≤ (promotedType type).width := by
  unfold promotedType
  split
  · omega
  · exact Nat.le_refl _

theorem commonType_self (type : IntType) : commonType type type = type := by
  simp [commonType]

/-- Operations on single bits do not see how the operands were widened. -/
theorem bitwise_resize {op : Char} {type wide : IntType} (hwide : type.width ≤ wide.width)
    {x y z : BitVec type.width} (hz : bitwise op x y = some z) :
    ∃ z', bitwise op (resize type x wide.width) (resize type y wide.width) = some z' ∧
      resize wide z' type.width = z := by
  have hbit : ∀ i < type.width, i < wide.width := fun i hi => Nat.lt_of_lt_of_le hi hwide
  unfold bitwise at hz ⊢
  split_ifs at hz ⊢ with hor hand
  · obtain rfl := Option.some.inj hz
    refine ⟨_, rfl, BitVec.eq_of_getLsbD_eq fun i hi => ?_⟩
    rw [getLsbD_resize _ hi (hbit i hi), BitVec.getLsbD_or, BitVec.getLsbD_or,
      getLsbD_resize _ (hbit i hi) hi, getLsbD_resize _ (hbit i hi) hi]
  · obtain rfl := Option.some.inj hz
    refine ⟨_, rfl, BitVec.eq_of_getLsbD_eq fun i hi => ?_⟩
    rw [getLsbD_resize _ hi (hbit i hi), BitVec.getLsbD_and, BitVec.getLsbD_and,
      getLsbD_resize _ (hbit i hi) hi, getLsbD_resize _ (hbit i hi) hi]

theorem complement_resize {type wide : IntType} (hwide : type.width ≤ wide.width)
    (x : BitVec type.width) :
    resize wide (~~~resize type x wide.width) type.width = ~~~x := by
  refine BitVec.eq_of_getLsbD_eq fun i hi => ?_
  have hbit : i < wide.width := Nat.lt_of_lt_of_le hi hwide
  rw [getLsbD_resize _ hi hbit, BitVec.getLsbD_not, BitVec.getLsbD_not,
    getLsbD_resize _ hbit hi]
  simp [hi, hbit]

theorem resize_self {type : IntType} (bits : BitVec type.width) :
    resize type bits type.width = bits :=
  BitVec.eq_of_getLsbD_eq fun _ hi => getLsbD_resize bits hi hi

end Bits

section Calls

variable {types : Word → Option ValueType} {name cname : Word} {underlying : IntType}

/-- A value of a scoped enumeration. -/
def enumValue (name : Word) (underlying : IntType) (bits : BitVec underlying.width) : Value :=
  ⟨.scoped name underlying, bits⟩

def intValue (type : IntType) (bits : BitVec type.width) : Value := ⟨.integer type, bits⟩

theorem convert_enumValue (name : Word) (bits : BitVec underlying.width) :
    (enumValue name underlying bits).convert (.integer underlying) = intValue underlying bits :=
  congrArg (intValue underlying) (resize_self bits)

theorem promote_intValue (bits : BitVec underlying.width) :
    (intValue underlying bits).promote = some (intValue (promotedType underlying)
      (resize underlying bits (promotedType underlying).width)) := rfl

theorem binary_promoted {op : Char} {left right : Value} {type : IntType}
    {x y z : BitVec type.width} (hleft : left.promote = some (intValue type x))
    (hright : right.promote = some (intValue type y)) (hz : bitwise op x y = some z) :
    left.binary op right = some (intValue type z) := by
  have hconvert : ∀ common, type = common → ((do
      let bits ← bitwise op ((intValue type x).convert (.integer common)).bits
        ((intValue type y).convert (.integer common)).bits
      some ⟨.integer common, bits⟩) : Option Value) = some (intValue type z) := by
    rintro _ rfl
    change (bitwise op (resize type x type.width) (resize type y type.width)).bind _ = _
    rw [resize_self, resize_self, hz]
    rfl
  rw [Value.binary, hleft, hright]
  exact hconvert _ (commonType_self type).symm

theorem call_of_eval {f : OperatorFunction} {arguments : List Value} {v : Value}
    (hbody : eval types ((f.parameters.map Prod.snd).zip arguments) f.body = some v)
    (hresult : types f.result = some v.type) : call types f arguments = some v := by
  rw [call, hbody]
  exact if_pos hresult

theorem eval_operand (name : Word) {locals : List (Word × Value)} {w : Word}
    {x : BitVec underlying.width} (hcname : types cname = some (.integer underlying))
    (hhidden : cname ∉ locals.map Prod.fst)
    (hw : (locals.find? (·.1 = w)).map Prod.snd = some (enumValue name underlying x)) :
    eval types locals (.convert cname (.name w)) = some (intValue underlying x) := by
  rw [← convert_enumValue name]
  simp only [eval, if_neg hhidden, hcname, hw, Option.bind_eq_bind, Option.bind_some]

theorem eval_convert {locals : List (Word × Value)} {e : Expr} {v : Value} {type : ValueType}
    (hname : types name = some type) (hv : eval types locals e = some v)
    (hhidden : name ∉ locals.map Prod.fst) :
    eval types locals (.convert name e) = some (v.convert type) := by
  simp only [eval, if_neg hhidden, hname, hv, Option.bind_eq_bind, Option.bind_some]

theorem call_binaryBody (hname : types name = some (.scoped name underlying))
    (hcname : types cname = some (.integer underlying)) {a b : Word} (hab : a ≠ b)
    (hhidden : name ∉ [a, b] ∧ cname ∉ [a, b]) {op : Char}
    {x y z : BitVec underlying.width} (hz : bitwise op x y = some z) :
    call types ⟨name, op, [(name, a), (name, b)], ReadsItem.binaryBody name cname op a b⟩
        [enumValue name underlying x, enumValue name underlying y] =
      some (enumValue name underlying z) := by
  obtain ⟨z', hwide, rfl⟩ := bitwise_resize (width_le_promotedType underlying) hz
  have hbinary := binary_promoted (promote_intValue x) (promote_intValue y) hwide
  have hleft : eval types [(a, enumValue name underlying x), (b, enumValue name underlying y)]
      (.convert cname (.name a)) = some (intValue underlying x) :=
    eval_operand name hcname hhidden.2 (by simp)
  have hright : eval types [(a, enumValue name underlying x), (b, enumValue name underlying y)]
      (.convert cname (.name b)) = some (intValue underlying y) :=
    eval_operand name hcname hhidden.2 (by simp [hab])
  have hoperation : eval types [(a, enumValue name underlying x), (b, enumValue name underlying y)]
      (.binary op (.convert cname (.name a)) (.convert cname (.name b))) =
        some (intValue _ z') := by
    rw [eval, hleft, hright]
    exact hbinary
  have hbody : eval types [(a, enumValue name underlying x), (b, enumValue name underlying y)]
      (ReadsItem.binaryBody name cname op a b) =
        some (enumValue name underlying (resize _ z' underlying.width)) :=
    eval_convert hname hoperation hhidden.1
  exact call_of_eval hbody hname

theorem call_complementBody (hname : types name = some (.scoped name underlying))
    (hcname : types cname = some (.integer underlying)) {v : Word} (hhidden : name ≠ v ∧ cname ≠ v)
    (x : BitVec underlying.width) :
    call types ⟨name, '~', [(name, v)], ReadsItem.complementBody name cname v⟩
        [enumValue name underlying x] = some (enumValue name underlying (~~~x)) := by
  have hoperand : eval types [(v, enumValue name underlying x)]
      (.convert cname (.name v)) = some (intValue underlying x) :=
    eval_operand name hcname (by simpa using hhidden.2) (by simp)
  have hcomplement : eval types [(v, enumValue name underlying x)]
      (.complement (.convert cname (.name v))) =
        some (intValue (promotedType underlying) (~~~resize underlying x _)) := by
    rw [eval, hoperand]
    rfl
  have hbody := eval_convert hname hcomplement (by simpa using hhidden.1)
  have hback : (intValue (promotedType underlying) (~~~resize underlying x _)).convert
      (.scoped name underlying) = enumValue name underlying (~~~x) :=
    congrArg (enumValue name underlying) (complement_resize (width_le_promotedType underlying) x)
  rw [hback] at hbody
  exact call_of_eval hbody hname

end Calls

end CloudabiCpp.Lib.Expressions

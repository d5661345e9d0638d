import CloudabiCpp.Lib.Expressions
import CloudabiCpp.Generator.TypesHeader

/-!
The operators of `types.hpp` on sets of flags. However wide the C type of the
flags is, they are the operations on the sets of bits that the flags stand for,
and so is whatever a program writes with them and the enumerators.
-/

namespace CloudabiCpp.Generator.FlagOperators

open CloudabiCpp.Lib.Lexer
open CloudabiCpp.Lib.Declarations
open CloudabiCpp.Lib.Headers
open CloudabiCpp.Lib.Expressions
open CloudabiCpp.Generator.Abi
open CloudabiCpp.Generator.CppNaming
open CloudabiCpp.Generator.TypeDefs
open CloudabiCpp.Generator.TypesHeader

/-- Types are told apart by their spelling, and so are the enumerators of a type;
both are told apart from what C gives names to. -/
structure ToldApart (cnaming : CNaming) (types : List NamedType) : Prop where
  nodup : (types.map fun type => spelled type.name).Nodup
  cnames : ∀ type ∈ types, ∀ other ∈ types, cnaming.ctypename type.name ≠ spelled other.name
  enumerators : ∀ t, .intLikeType t ∈ types → ((enumeratorsOf cnaming t).map Prod.fst).Nodup
  constants : ∀ t, .intLikeType t ∈ types → ∀ v ∈ t.values,
    cnaming.cvalname t v ∉ (enumeratorsOf cnaming t).map Prod.fst ∧
      ∀ other ∈ types, cnaming.cvalname t v ≠ spelled other.name

/-- What C gives the types: to those that have values an integer type, and to each
value a number of that type. -/
structure GivenInC (cnaming : CNaming) (ctypes : Word → Option IntType)
    (constants : Word → Option Int) (types : List NamedType)
    (underlying : IntLikeType → IntType) (numbers : IntLikeType → Text → Int) : Prop where
  ctype : ∀ t, .intLikeType t ∈ types → ctypes (cnaming.ctypename t.name) = some (underlying t)
  values : ∀ t, .intLikeType t ∈ types → ∀ v ∈ t.values,
    constants (cnaming.cvalname t v) = some (numbers t v) ∧ (underlying t).Holds (numbers t v)

section Header

variable {cnaming : CNaming} {types : List NamedType} (ctypes : Word → Option IntType)

theorem eq_of_spelled (h : ToldApart cnaming types) {a b : NamedType} (ha : a ∈ types)
    (hb : b ∈ types) (hspelled : spelled a.name = spelled b.name) : a = b :=
  List.inj_on_of_nodup_map h.nodup ha hb hspelled

theorem mem_typeNames {w : Word} :
    w ∈ typeNames (types.flatMap (typeItems cnaming)) ↔ ∃ type ∈ types, spelled type.name = w := by
  simp [typeNames, List.filterMap_flatMap, declaredTypes_typeItems, eq_comm]

theorem cname_not_mem_typeNames (h : ToldApart cnaming types) {type : NamedType}
    (htype : type ∈ types) :
    cnaming.ctypename type.name ∉ typeNames (types.flatMap (typeItems cnaming)) := by
  rw [mem_typeNames]
  rintro ⟨other, hother, hname⟩
  exact h.cnames type htype other hother hname.symm

/-- An enumeration comes from the type it is named after. -/
theorem enumeration_mem {name underlying : Word} {values : List (Word × Word)}
    (hmem : .enumeration name underlying values ∈ types.flatMap (typeItems cnaming)) :
    ∃ t, .intLikeType t ∈ types ∧ spelled t.name = name ∧ cnaming.ctypename t.name = underlying ∧
      enumeratorsOf cnaming t = values := by
  obtain ⟨type, htype, hitem⟩ := List.mem_flatMap.mp hmem
  cases type with
  | aliasType name => simp [typeItems] at hitem
  | structType type => simp [typeItems] at hitem
  | intLikeType t =>
      rcases List.mem_cons.mp hitem with heq | hoperator
      · obtain ⟨rfl, rfl, rfl⟩ := Item.enumeration.inj heq
        exact ⟨t, htype, rfl, rfl, rfl⟩
      · split at hoperator
        · simp [operatorItems] at hoperator
        · simp at hoperator

theorem findEnumeration_intLikeType (h : ToldApart cnaming types) {t : IntLikeType}
    (ht : .intLikeType t ∈ types) :
    findEnumeration (types.flatMap (typeItems cnaming)) (spelled t.name) =
      some (cnaming.ctypename t.name, enumeratorsOf cnaming t) := by
  refine findEnumeration_eq_some
    (List.mem_flatMap.mpr ⟨.intLikeType t, ht, List.mem_cons_self⟩) ?_
  intro underlying values hmem
  obtain ⟨t', ht', hspelled, rfl, rfl⟩ := enumeration_mem hmem
  obtain ⟨rfl⟩ := eq_of_spelled h ht' ht hspelled
  exact ⟨rfl, rfl⟩

theorem typesIn_spelled (h : ToldApart cnaming types) {t : IntLikeType}
    (ht : .intLikeType t ∈ types) :
    typesIn ctypes (types.flatMap (typeItems cnaming)) (spelled t.name) =
      (ctypes (cnaming.ctypename t.name)).map (.scoped (spelled t.name)) := by
  refine typesIn_enumeration (List.mem_flatMap.mpr ⟨.intLikeType t, ht, List.mem_cons_self⟩) ?_
    (cname_not_mem_typeNames h ht)
  intro i hi hname
  obtain ⟨type, htype, hmem⟩ := List.mem_flatMap.mp hi
  have hdeclared := List.mem_filterMap.mpr ⟨i, hmem, hname⟩
  rw [declaredTypes_typeItems, List.mem_singleton] at hdeclared
  obtain rfl := eq_of_spelled h ht htype hdeclared
  rcases List.mem_cons.mp hmem with heq | hoperator
  · exact heq
  · split at hoperator
    · simp only [operatorItems, List.mem_cons, List.not_mem_nil, or_false] at hoperator
      rcases hoperator with rfl | rfl | rfl <;> cases hname
    · cases hoperator

theorem typesIn_cname (h : ToldApart cnaming types) {type : NamedType} (htype : type ∈ types) :
    typesIn ctypes (types.flatMap (typeItems cnaming)) (cnaming.ctypename type.name) =
      (ctypes (cnaming.ctypename type.name)).map .integer :=
  typesIn_outside ctypes (cname_not_mem_typeNames h htype)

/-- The operator functions that are declared for a type. -/
def functionsOf (cnaming : CNaming) (type : NamedType) : List OperatorFunction :=
  operatorFunctions (typeItems cnaming type)

theorem operatorFunctions_flatMap :
    operatorFunctions (types.flatMap (typeItems cnaming)) = types.flatMap (functionsOf cnaming) :=
  List.filterMap_flatMap

theorem functionsOf_eq (type : NamedType) :
    functionsOf cnaming type =
      match type with
      | .intLikeType t =>
          if t.isFlags then
            operatorFunctions (operatorItems (spelled t.name) (cnaming.ctypename t.name))
          else []
      | _ => [] := by
  cases type with
  | aliasType name => rfl
  | structType type => rfl
  | intLikeType t =>
      by_cases hisFlags : t.isFlags = true
      · simp [functionsOf, typeItems, hisFlags, operatorFunctions]
      · simp [functionsOf, typeItems, hisFlags, operatorFunctions]

theorem mem_functionsOf {type : NamedType} {f : OperatorFunction}
    (hf : f ∈ functionsOf cnaming type) :
    ∃ t name rest, type = .intLikeType t ∧ f.parameters = (spelled t.name, name) :: rest := by
  rw [functionsOf_eq] at hf
  split at hf
  · rename_i t
    split at hf
    · simp only [operatorFunctions, operatorItems, List.filterMap_cons, List.filterMap_nil,
        List.mem_cons, List.not_mem_nil, or_false] at hf
      rcases hf with rfl | rfl | rfl
      · exact ⟨t, _, _, rfl, rfl⟩
      · exact ⟨t, _, _, rfl, rfl⟩
      · exact ⟨t, _, _, rfl, rfl⟩
    · cases hf
  · cases hf

/-- Only the operators of its own type take a value. -/
theorem filter_functionsOf_other (h : ToldApart cnaming types) {type other : NamedType}
    (hother : other ∈ types) (hne : spelled other.name ≠ spelled type.name)
    (underlying : IntType) (op : Char) {arguments : List Value}
    (harguments : ∀ v ∈ arguments, v.type = .scoped (spelled type.name) underlying) :
    (functionsOf cnaming other).filter (fun f => f.op = op ∧
      Takes (typesIn ctypes (types.flatMap (typeItems cnaming))) f arguments) = [] := by
  rw [List.filter_eq_nil_iff]
  intro f hf hmatches
  obtain ⟨-, htakes⟩ := of_decide_eq_true hmatches
  obtain ⟨t, name, rest, rfl, hparameters⟩ := mem_functionsOf hf
  rw [Takes, hparameters, parameterTypes, if_neg List.not_mem_nil] at htakes
  obtain ⟨v, arguments, rfl, hfirst, -⟩ := List.map_eq_cons_iff.mp htakes.symm
  rw [harguments v List.mem_cons_self, typesIn_spelled ctypes h hother] at hfirst
  obtain ⟨u, -, hscoped⟩ := Option.map_eq_some_iff.mp hfirst.symm
  exact hne (ValueType.scoped.inj hscoped).1

/-- The operators of a flags type are called on its values. -/
theorem callOperator_flags (h : ToldApart cnaming types) {t : IntLikeType}
    (ht : .intLikeType t ∈ types) {underlying : IntType} {op : Char} {arguments : List Value}
    (harguments : ∀ v ∈ arguments, v.type = .scoped (spelled t.name) underlying)
    {f : OperatorFunction} (hf : (functionsOf cnaming (.intLikeType t)).filter (fun f => f.op = op ∧
      Takes (typesIn ctypes (types.flatMap (typeItems cnaming))) f arguments) = [f]) :
    let header := types.flatMap (typeItems cnaming)
    callOperator (typesIn ctypes header) header op arguments =
      call (typesIn ctypes header) f arguments := by
  have hnodup : types.Nodup := List.Nodup.of_map _ h.nodup
  have hothers : ∀ other ∈ types, other ≠ .intLikeType t →
      (functionsOf cnaming other).filter (fun f => f.op = op ∧
        Takes (typesIn ctypes (types.flatMap (typeItems cnaming))) f arguments) = [] := by
    intro other hother hne
    have hunlike : spelled other.name ≠ spelled (NamedType.intLikeType t).name :=
      fun hspelled => hne (eq_of_spelled h hother ht hspelled)
    exact filter_functionsOf_other ctypes h hother hunlike underlying op harguments
  intro header
  rw [callOperator, operatorFunctions_flatMap, List.filter_flatMap,
    flatMap_eq_of_unique hnodup ht hothers, hf]

theorem functionsOf_flags {t : IntLikeType} (hisFlags : t.isFlags = true) :
    functionsOf cnaming (.intLikeType t) =
      operatorFunctions (operatorItems (spelled t.name) (cnaming.ctypename t.name)) := by
  rw [functionsOf_eq]
  exact if_pos hisFlags

section Calls

variable {t : IntLikeType} {underlying : IntType}

/-- The type of the flags and that of their numbers. -/
theorem typesIn_flags (h : ToldApart cnaming types) (ht : .intLikeType t ∈ types)
    (hctype : ctypes (cnaming.ctypename t.name) = some underlying) :
    let header := types.flatMap (typeItems cnaming)
    typesIn ctypes header (spelled t.name) = some (.scoped (spelled t.name) underlying) ∧
      typesIn ctypes header (cnaming.ctypename t.name) = some (.integer underlying) := by
  have hname := typesIn_spelled ctypes h ht
  have hcname := typesIn_cname ctypes h ht
  rw [hctype] at hname
  rw [NamedType.name, hctype] at hcname
  exact ⟨hname, hcname⟩

theorem callOperator_binary (h : ToldApart cnaming types) (ht : .intLikeType t ∈ types)
    (hisFlags : t.isFlags = true) (hoperands : NotHidden cnaming t)
    (hctype : ctypes (cnaming.ctypename t.name) = some underlying) {op : Char}
    (hop : op = '|' ∨ op = '&') {x y z : BitVec underlying.width}
    (hz : bitwise op x y = some z) :
    let header := types.flatMap (typeItems cnaming)
    callOperator (typesIn ctypes header) header op
        [enumValue (spelled t.name) underlying x, enumValue (spelled t.name) underlying y] =
      some (enumValue (spelled t.name) underlying z) := by
  obtain ⟨hname, hcname⟩ := typesIn_flags ctypes h ht hctype
  have harguments : ∀ v ∈ [enumValue (spelled t.name) underlying x,
      enumValue (spelled t.name) underlying y], v.type = .scoped (spelled t.name) underlying := by
    simp [enumValue]
  obtain ⟨hspelled, hcspelled⟩ := hoperands
  simp only [operandNames, List.mem_cons, List.not_mem_nil, or_false, not_or] at hspelled hcspelled
  have hfilter : (functionsOf cnaming (.intLikeType t)).filter (fun f => f.op = op ∧
      Takes (typesIn ctypes (types.flatMap (typeItems cnaming))) f
        [enumValue (spelled t.name) underlying x, enumValue (spelled t.name) underlying y]) =
      [⟨spelled t.name, op, [(spelled t.name, ['a']), (spelled t.name, ['b'])],
        ReadsItem.binaryBody (spelled t.name) (cnaming.ctypename t.name) op ['a'] ['b']⟩] := by
    rw [functionsOf_flags hisFlags]
    rcases hop with rfl | rfl
    · simp [operatorFunctions, operatorItems, Takes, parameterTypes, hname, hspelled, enumValue]
    · simp [operatorFunctions, operatorItems, Takes, parameterTypes, hname, hspelled, enumValue]
  have hhidden : spelled t.name ∉ [['a'], ['b']] ∧ cnaming.ctypename t.name ∉ [['a'], ['b']] := by
    simp [hspelled, hcspelled]
  intro header
  rw [callOperator_flags ctypes h ht harguments hfilter]
  exact call_binaryBody hname hcname (by decide) hhidden hz

theorem callOperator_complement (h : ToldApart cnaming types) (ht : .intLikeType t ∈ types)
    (hisFlags : t.isFlags = true) (hoperands : NotHidden cnaming t)
    (hctype : ctypes (cnaming.ctypename t.name) = some underlying) (x : BitVec underlying.width) :
    let header := types.flatMap (typeItems cnaming)
    callOperator (typesIn ctypes header) header '~' [enumValue (spelled t.name) underlying x] =
      some (enumValue (spelled t.name) underlying (~~~x)) := by
  obtain ⟨hname, hcname⟩ := typesIn_flags ctypes h ht hctype
  have harguments : ∀ v ∈ [enumValue (spelled t.name) underlying x],
      v.type = .scoped (spelled t.name) underlying := by
    simp [enumValue]
  have hfilter : (functionsOf cnaming (.intLikeType t)).filter (fun f => f.op = '~' ∧
      Takes (typesIn ctypes (types.flatMap (typeItems cnaming))) f
        [enumValue (spelled t.name) underlying x]) =
      [⟨spelled t.name, '~', [(spelled t.name, ['v'])],
        ReadsItem.complementBody (spelled t.name) (cnaming.ctypename t.name) ['v']⟩] := by
    rw [functionsOf_flags hisFlags]
    simp [operatorFunctions, operatorItems, Takes, parameterTypes, hname, enumValue]
  obtain ⟨hspelled, hcspelled⟩ := hoperands
  simp only [operandNames, List.mem_cons, List.not_mem_nil, or_false, not_or] at hspelled hcspelled
  intro header
  rw [callOperator_flags ctypes h ht harguments hfilter]
  exact call_complementBody hname hcname ⟨hspelled.2.2, hcspelled.2.2⟩ x

/-- The constants that an enumerator finds. -/
def visibleConstants (constants : Word → Option Int) (cnaming : CNaming) (types : List NamedType)
    (t : IntLikeType) (name : Word) : Word → Option Int :=
  around constants ((((enumeratorsOf cnaming t).takeWhile (·.1 ≠ name)).map Prod.fst) ++
    typeNames (types.flatMap (typeItems cnaming)))

theorem enumerator_eq (h : ToldApart cnaming types) (ht : .intLikeType t ∈ types)
    (hctype : ctypes (cnaming.ctypename t.name) = some underlying)
    {constants : Word → Option Int} {value : Word × Word} (hvalue : value ∈ enumeratorsOf cnaming t)
    {n : Int}
    (hn : initializer (visibleConstants constants cnaming types t value.1) value.2 = some n)
    (hholds : underlying.Holds n) :
    enumerator ctypes constants (types.flatMap (typeItems cnaming)) (spelled t.name) value.1 =
      some (enumValue (spelled t.name) underlying (BitVec.ofInt _ n)) := by
  have hfind := find?_fst_of_nodup (h.enumerators t ht) hvalue
  have haround : around ctypes (typeNames (types.flatMap (typeItems cnaming)))
      (cnaming.ctypename t.name) = some underlying :=
    (around_of_not_mem (cname_not_mem_typeNames h ht)).trans hctype
  rw [visibleConstants] at hn
  simp only [enumerator, findEnumeration_intLikeType h ht, Option.bind_eq_bind, Option.bind_some,
    haround, hfind, hn, if_pos hholds]
  rfl

theorem holds_zero (underlying : IntType) : underlying.Holds 0 := by
  have hpow : (0 : Int) < 2 ^ (underlying.width - 1) := Int.pow_pos (by decide)
  have hpow' : (0 : Int) < 2 ^ underlying.width := Int.pow_pos (by decide)
  unfold IntType.Holds
  split
  · exact ⟨by omega, hpow⟩
  · exact ⟨Int.le_refl 0, hpow'⟩

theorem enumerator_none (h : ToldApart cnaming types) (ht : .intLikeType t ∈ types)
    (hisFlags : t.isFlags = true) (hctype : ctypes (cnaming.ctypename t.name) = some underlying)
    (constants : Word → Option Int) :
    enumerator ctypes constants (types.flatMap (typeItems cnaming)) (spelled t.name)
        (lit "none") = some (enumValue (spelled t.name) underlying 0) := by
  have hmem : (lit "none", ['0']) ∈ enumeratorsOf cnaming t := by
    simp [enumeratorsOf, hisFlags]
  have hzero : number ['0'] = some 0 := by decide
  refine enumerator_eq ctypes h ht hctype hmem (n := 0) ?_ (holds_zero underlying)
  rw [initializer, hzero]
  rfl

theorem number_of_isName {w : Word} (hw : IsName w) : number w = none := by
  obtain ⟨hne, -, hidentifier⟩ := hw
  refine if_neg ?_
  rintro ⟨hdigits, -⟩
  obtain ⟨c, cs, rfl⟩ := List.exists_cons_of_ne_nil hne
  have hdigit : c.isDigit = true := List.all_eq_true.mp hdigits c List.mem_cons_self
  simp [isIdentifier, hdigit] at hidentifier

theorem enumerator_value (h : ToldApart cnaming types) (ht : .intLikeType t ∈ types)
    (hctype : ctypes (cnaming.ctypename t.name) = some underlying)
    {constants : Word → Option Int} {v : Text} (hv : v ∈ t.values)
    (hname : IsName (cnaming.cvalname t v)) {n : Int}
    (hconstant : constants (cnaming.cvalname t v) = some n) (hholds : underlying.Holds n) :
    enumerator ctypes constants (types.flatMap (typeItems cnaming)) (spelled t.name) (spelled v) =
      some (enumValue (spelled t.name) underlying (BitVec.ofInt _ n)) := by
  have hmem : (spelled v, cnaming.cvalname t v) ∈ enumeratorsOf cnaming t :=
    List.mem_append_right _ (List.mem_map_of_mem hv)
  refine enumerator_eq ctypes h ht hctype hmem ?_ hholds
  obtain ⟨henumerators, htypes⟩ := h.constants t ht v hv
  rw [initializer, number_of_isName hname, Option.map_none, Option.none_or, visibleConstants,
    around_of_not_mem, hconstant]
  rw [List.mem_append, not_or, mem_typeNames]
  constructor
  · intro hearlier
    obtain ⟨value, hvalue, heq⟩ := List.mem_map.mp hearlier
    exact henumerators (List.mem_map.mpr ⟨value, (List.takeWhile_sublist _).subset hvalue, heq⟩)
  · rintro ⟨other, hother, heq⟩
    exact htypes other hother heq.symm

end Calls

end Header

/-- The operators that a header gives the values of a type are the operations on
sets of bits. -/
structure ActsOnSets (ctypes : Word → Option IntType) (constants : Word → Option Int)
    (header : List Item) (type : Word) (underlying : IntType) : Prop where
  union : ∀ x y, ∃ z, callOperator (typesIn ctypes header) header '|'
      [enumValue type underlying x, enumValue type underlying y] =
        some (enumValue type underlying z) ∧ bitSet z = bitSet x ∪ bitSet y
  inter : ∀ x y, ∃ z, callOperator (typesIn ctypes header) header '&'
      [enumValue type underlying x, enumValue type underlying y] =
        some (enumValue type underlying z) ∧ bitSet z = bitSet x ∩ bitSet y
  compl : ∀ x, ∃ z, callOperator (typesIn ctypes header) header '~'
      [enumValue type underlying x] = some (enumValue type underlying z) ∧ bitSet z = (bitSet x)ᶜ
  none : ∃ z, enumerator ctypes constants header type (lit "none") =
      some (enumValue type underlying z) ∧ bitSet z = ∅

/-- An expression over the values of a flags type; these go by their names in
the ABI. -/
inductive FlagExpr where
  | none
  | value (v : Text)
  | union (left right : FlagExpr)
  | inter (left right : FlagExpr)
  | compl (e : FlagExpr)

namespace FlagExpr

def Over (values : List Text) : FlagExpr → Prop
  | .none => True
  | .value v => v ∈ values
  | .union left right => left.Over values ∧ right.Over values
  | .inter left right => left.Over values ∧ right.Over values
  | .compl e => e.Over values

/-- What the expression means if each value is a set of flags. -/
def meaning {w : Nat} (flags : Text → Finset (Fin w)) : FlagExpr → Finset (Fin w)
  | .none => ∅
  | .value v => flags v
  | .union left right => left.meaning flags ∪ right.meaning flags
  | .inter left right => left.meaning flags ∩ right.meaning flags
  | .compl e => (e.meaning flags)ᶜ

/-- What it evaluates to in C++, where it is written with the enumerators and the
operators of the header. -/
def evaluate (ctypes : Word → Option IntType) (constants : Word → Option Int)
    (header : List Item) (type : Word) : FlagExpr → Option Value
  | .none => enumerator ctypes constants header type (lit "none")
  | .value v => enumerator ctypes constants header type (spelled v)
  | .union left right => do
      let x ← left.evaluate ctypes constants header type
      let y ← right.evaluate ctypes constants header type
      callOperator (typesIn ctypes header) header '|' [x, y]
  | .inter left right => do
      let x ← left.evaluate ctypes constants header type
      let y ← right.evaluate ctypes constants header type
      callOperator (typesIn ctypes header) header '&' [x, y]
  | .compl e => do
      let x ← e.evaluate ctypes constants header type
      callOperator (typesIn ctypes header) header '~' [x]

end FlagExpr

section Flags

variable (cnaming : CNaming) (skip : List Text) (ctypes : Word → Option IntType)
  (constants : Word → Option Int) {types : List NamedType} {underlying : IntLikeType → IntType}
  {numbers : IntLikeType → Text → Int}

theorem actsOnSets (hapart : ToldApart cnaming types)
    (hgiven : GivenInC cnaming ctypes constants types underlying numbers) {t : IntLikeType}
    (ht : .intLikeType t ∈ types) (hisFlags : t.isFlags = true) (hoperands : NotHidden cnaming t) :
    ActsOnSets ctypes constants (types.flatMap (typeItems cnaming)) (spelled t.name)
      (underlying t) where
  union := fun x y => ⟨x ||| y, callOperator_binary ctypes hapart ht hisFlags hoperands
    (hgiven.ctype t ht) (Or.inl rfl) rfl, bitSet_or x y⟩
  inter := fun x y => ⟨x &&& y, callOperator_binary ctypes hapart ht hisFlags hoperands
    (hgiven.ctype t ht) (Or.inr rfl) rfl, bitSet_and x y⟩
  compl := fun x => ⟨~~~x, callOperator_complement ctypes hapart ht hisFlags hoperands
    (hgiven.ctype t ht) x, bitSet_not x⟩
  none := ⟨0, enumerator_none ctypes hapart ht hisFlags (hgiven.ctype t ht) constants,
    bitSet_zero⟩

/-- The flags of `types.hpp` are sets. -/
theorem flags_act_on_sets (hnames : ∀ type ∈ types, type.name ≠ [])
    (hreadable : ∀ type ∈ types, type.name ∉ skip → TypeReadable cnaming type)
    (hapart : ToldApart cnaming (types.filter (·.name ∉ skip)))
    (hgiven : GivenInC cnaming ctypes constants (types.filter (·.name ∉ skip)) underlying numbers) :
    ∃ header, readHeader ((types.forM (generateType cnaming skip)).output.flatMap TypeLine.text) =
        some header ∧
      ∀ t, .intLikeType t ∈ types → t.name ∉ skip → t.isFlags = true →
        ActsOnSets ctypes constants header (spelled t.name) (underlying t) := by
  refine ⟨_, (heads_output cnaming skip hnames hreadable).2.readHeader, ?_⟩
  intro t htypes hskip hisFlags
  have ht : .intLikeType t ∈ types.filter (·.name ∉ skip) :=
    List.mem_filter.mpr ⟨htypes, decide_eq_true hskip⟩
  exact actsOnSets cnaming ctypes constants hapart hgiven ht hisFlags
    ((hreadable _ htypes hskip).operands t rfl hisFlags)

/-- The C type of the flags `mflags`. -/
def mflagsType (name : Word) : Option IntType :=
  if name = lit "cloudabi_mflags_t" then some ⟨8, false⟩ else none

/-- The numbers of C for the values of `mflags`. -/
def mflagsConstants (name : Word) : Option Int :=
  if name = lit "CLOUDABI_MAP_ANON" then some 1
  else if name = lit "CLOUDABI_MAP_FIXED" then some 2
  else if name = lit "CLOUDABI_MAP_PRIVATE" then some 4
  else if name = lit "CLOUDABI_MAP_SHARED" then some 8
  else none

def mflagsNumber (v : Text) : Int :=
  if v = lit "anon" then 1 else if v = lit "fixed" then 2 else if v = lit "private" then 4 else 8

theorem eq_mflags_of_mem {t : IntLikeType}
    (ht : .intLikeType t ∈ someTypes.filter (·.name ∉ [lit "lookup"])) : t = mflags := by
  simpa [someTypes] using List.mem_of_mem_filter ht

theorem toldApart_someTypes :
    ToldApart mflagsNaming (someTypes.filter (·.name ∉ [lit "lookup"])) := by
  refine ⟨by decide +kernel, by decide +kernel, ?_, ?_⟩
  · intro t ht
    obtain rfl := eq_mflags_of_mem ht
    decide +kernel
  · intro t ht
    obtain rfl := eq_mflags_of_mem ht
    decide +kernel

theorem givenInC_someTypes :
    GivenInC mflagsNaming mflagsType mflagsConstants (someTypes.filter (·.name ∉ [lit "lookup"]))
      (fun _ => ⟨8, false⟩) (fun _ => mflagsNumber) := by
  constructor
  · intro t ht
    obtain rfl := eq_mflags_of_mem ht
    decide +kernel
  · intro t ht
    obtain rfl := eq_mflags_of_mem ht
    decide +kernel

theorem mflags_act_on_sets :
    ∃ header, readHeader ((someTypes.forM (generateType mflagsNaming [lit "lookup"])).output.flatMap
        TypeLine.text) = some header ∧
      ∀ t, .intLikeType t ∈ someTypes → t.name ∉ [lit "lookup"] → t.isFlags = true →
        ActsOnSets mflagsType mflagsConstants header (spelled t.name) ⟨8, false⟩ :=
  flags_act_on_sets mflagsNaming [lit "lookup"] mflagsType mflagsConstants
    (fun type htype => (typeReadable_someTypes type htype).spellable.name)
    (fun type htype _ => typeReadable_someTypes type htype) toldApart_someTypes givenInC_someTypes

/-- Whatever is made of the values with the operators means in C++ what it means
for the sets of flags that C's numbers are. -/
theorem flag_expressions_keep_meaning (hnames : ∀ type ∈ types, type.name ≠ [])
    (hreadable : ∀ type ∈ types, type.name ∉ skip → TypeReadable cnaming type)
    (hapart : ToldApart cnaming (types.filter (·.name ∉ skip)))
    (hgiven : GivenInC cnaming ctypes constants (types.filter (·.name ∉ skip)) underlying numbers) :
    ∃ header, readHeader ((types.forM (generateType cnaming skip)).output.flatMap TypeLine.text) =
        some header ∧
      ∀ t, .intLikeType t ∈ types → t.name ∉ skip → t.isFlags = true →
        ∀ e : FlagExpr, e.Over t.values →
          ∃ z, e.evaluate ctypes constants header (spelled t.name) =
              some (enumValue (spelled t.name) (underlying t) z) ∧
            bitSet z = e.meaning fun v =>
              bitSet (BitVec.ofInt (underlying t).width (numbers t v)) := by
  refine ⟨_, (heads_output cnaming skip hnames hreadable).2.readHeader, ?_⟩
  intro t htypes hskip hisFlags e he
  have ht : .intLikeType t ∈ types.filter (·.name ∉ skip) :=
    List.mem_filter.mpr ⟨htypes, decide_eq_true hskip⟩
  have hread := hreadable _ htypes hskip
  have hacts := actsOnSets cnaming ctypes constants hapart hgiven ht hisFlags
    (hread.operands t rfl hisFlags)
  induction e with
  | none => exact hacts.none
  | value v =>
      obtain ⟨hconstant, hholds⟩ := hgiven.values t ht v he
      exact ⟨_, enumerator_value ctypes hapart ht (hgiven.ctype t ht) he (hread.values t rfl v he).2
        hconstant hholds, rfl⟩
  | union left right ihleft ihright =>
      obtain ⟨x, hx, hleft⟩ := ihleft he.1
      obtain ⟨y, hy, hright⟩ := ihright he.2
      obtain ⟨z, hz, hunion⟩ := hacts.union x y
      refine ⟨z, ?_, by rw [hunion, hleft, hright, FlagExpr.meaning]⟩
      simpa only [FlagExpr.evaluate, hx, hy, Option.bind_eq_bind, Option.bind_some] using hz
  | inter left right ihleft ihright =>
      obtain ⟨x, hx, hleft⟩ := ihleft he.1
      obtain ⟨y, hy, hright⟩ := ihright he.2
      obtain ⟨z, hz, hinter⟩ := hacts.inter x y
      refine ⟨z, ?_, by rw [hinter, hleft, hright, FlagExpr.meaning]⟩
      simpa only [FlagExpr.evaluate, hx, hy, Option.bind_eq_bind, Option.bind_some] using hz
  | compl e ih =>
      obtain ⟨x, hx, hmeaning⟩ := ih he
      obtain ⟨z, hz, hcompl⟩ := hacts.compl x
      refine ⟨z, ?_, by rw [hcompl, hmeaning, FlagExpr.meaning]⟩
      simpa only [FlagExpr.evaluate, hx, Option.bind_eq_bind, Option.bind_some] using hz

theorem flag_expressions_keep_meaning_mflags :
    ∃ header, readHeader ((someTypes.forM (generateType mflagsNaming [lit "lookup"])).output.flatMap
        TypeLine.text) = some header ∧
      ∀ t, .intLikeType t ∈ someTypes → t.name ∉ [lit "lookup"] → t.isFlags = true →
        ∀ e : FlagExpr, e.Over t.values →
          ∃ z, e.evaluate mflagsType mflagsConstants header (spelled t.name) =
              some (enumValue (spelled t.name) ⟨8, false⟩ z) ∧
            bitSet z = e.meaning fun v => bitSet (BitVec.ofInt 8 (mflagsNumber v)) :=
  flag_expressions_keep_meaning mflagsNaming [lit "lookup"] mflagsType mflagsConstants
    (fun type htype => (typeReadable_someTypes type htype).spellable.name)
    (fun type htype _ => typeReadable_someTypes type htype) toldApart_someTypes givenInC_someTypes

end Flags

end CloudabiCpp.Generator.FlagOperators

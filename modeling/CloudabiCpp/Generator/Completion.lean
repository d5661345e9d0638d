import CloudabiCpp.Generator.TypeDefs
import CloudabiCpp.Generator.OffsetAsserts
import CloudabiCpp.Generator.NameLookup

/-!
Which ABIs the two generators get through. Spelling a name fails only for the
empty name, and the width of a column only for a column without rows: of a flags
type without values no more than the opening brace is printed.
-/

namespace CloudabiCpp.Generator.Completion

open CloudabiCpp.Lib.Printing
open CloudabiCpp.Lib.Printing.Printer
open CloudabiCpp.Generator.Abi
open CloudabiCpp.Generator.CppNaming
open CloudabiCpp.Generator.StructDefs
open CloudabiCpp.Generator.TypeDefs
open CloudabiCpp.Generator.OffsetAsserts
open CloudabiCpp.Generator.NameLookup

theorem exists_columnWidth {values : List Text} (hne : values ≠ [])
    (hvalues : ∀ v ∈ values, v ≠ []) : ∃ width, columnWidth values = .ok width := by
  have hlengths : (values.mapM fun v => (valname v).map List.length) =
      .ok (values.map fun v => (spelled v).length) := by
    apply mapM_eq_ok
    intro v hv
    rw [valname, mangle_eq_spelled (hvalues v hv)]
    rfl
  obtain ⟨v, rest, rfl⟩ := List.exists_cons_of_ne_nil hne
  refine ⟨(rest.map fun v => (spelled v).length).foldl max (spelled v).length, ?_⟩
  rw [columnWidth, hlengths]
  rfl

section TypeDefs

variable (cnaming : CNaming)

/-- The enumerator that only flags have. -/
def noFlags (width : Nat) (type : IntLikeType) : List TypeLine :=
  if type.isFlags then [.enumerator width (lit "none") ['0']] else []

def enumerators (width : Nat) (type : IntLikeType) : List TypeLine :=
  type.values.map fun v => .enumerator width (spelled v) (cnaming.cvalname type v)

def operators (name cname : Text) (type : IntLikeType) : List TypeLine :=
  if type.isFlags then
    [.binaryOperator '|' name cname, .binaryOperator '&' name cname, .unaryOperator name cname]
  else []

theorem generateValues_yields {type : IntLikeType} {width : Nat}
    (hvalues : ∀ v ∈ type.values, v ≠ []) (hwidth : columnWidth type.values = .ok width) :
    (generateValues cnaming type).Yields
      (.lineBreak :: noFlags width type ++ enumerators cnaming width type) () := by
  have hrow : ∀ v ∈ type.values, (do
      let name ← valname v
      print (.enumerator width name (cnaming.cvalname type v)) :
        Printer TypeLine PyError Unit).Yields
          [.enumerator width (spelled v) (cnaming.cvalname type v)] () :=
    fun v hv => (yields_lift (mangle_eq_spelled (hvalues v hv))).bind (yields_print _)
  exact (yields_print TypeLine.lineBreak).bind
    ((yields_lift hwidth).bind ((yields_when fun _ => yields_print _).bind (yields_forM hrow)))

theorem generateValues_raises {type : IntLikeType} (hvalues : type.values = []) :
    (generateValues cnaming type).Raises [.lineBreak] .valueError := by
  have hwidth : columnWidth type.values = .error .valueError := by
    rw [hvalues]
    rfl
  exact (yields_print TypeLine.lineBreak).bind_raises ((raises_lift hwidth).bind _)

theorem generateOperators_yields (name cname : Text) :
    (generateOperators name cname).Yields
      [.binaryOperator '|' name cname, .binaryOperator '&' name cname,
        .unaryOperator name cname] () :=
  (yields_forM fun op _ => yields_print (TypeLine.binaryOperator op name cname)).bind
    (yields_print _)

variable (skip : List Text)

def HasRows (type : IntLikeType) : Prop := type.values.length > 0 ∨ type.isFlags = true

instance (type : IntLikeType) : Decidable (HasRows type) :=
  inferInstanceAs (Decidable (_ ∨ _))

/-- What is printed for an integer-like type that the generator gets through. -/
def intLikeLines (width : Nat) (type : IntLikeType) : List TypeLine :=
  .enumHead (spelled type.name) (cnaming.ctypename type.name) ::
    ((if HasRows type then [.lineBreak] else []) ++ noFlags width type ++
      enumerators cnaming width type) ++
    .enumFoot :: operators (spelled type.name) (cnaming.ctypename type.name) type

def definitionLines (width : Nat) : NamedType → List TypeLine
  | .aliasType name => [.using (spelled name) (cnaming.ctypename name)]
  | .intLikeType type => intLikeLines cnaming width type
  | .structType type => [.struct (spelled type.name)]

/-- Flags without values are what the generator stumbles over. -/
def HasValues : NamedType → Prop
  | .intLikeType type => type.isFlags = true → type.values ≠ []
  | _ => True

instance : (type : NamedType) → Decidable (HasValues type)
  | .intLikeType type => inferInstanceAs (Decidable (type.isFlags = true → type.values ≠ []))
  | .aliasType _ | .structType _ => isTrue trivial

/-- The names that `mangle` is applied to are not empty. -/
def Spellable : NamedType → Prop
  | .aliasType name => name ≠ []
  | .intLikeType type => type.name ≠ [] ∧ ∀ v ∈ type.values, v ≠ []
  | .structType type =>
      type.name ≠ [] ∧ ∀ leaf ∈ leaves type.members, userName leaf.content.type ≠ some []

instance decidableSpellable : (type : NamedType) → Decidable (Spellable type)
  | .aliasType name => inferInstanceAs (Decidable (name ≠ []))
  | .intLikeType type =>
      have := List.decidableBAll (· ≠ []) type.values
      inferInstanceAs (Decidable (type.name ≠ [] ∧ ∀ v ∈ type.values, v ≠ []))
  | .structType type =>
      have : Decidable (∀ leaf ∈ leaves type.members, userName leaf.content.type ≠ some []) :=
        List.decidableBAll (fun leaf => userName leaf.content.type ≠ some []) (leaves type.members)
      inferInstanceAs (Decidable (type.name ≠ [] ∧
        ∀ leaf ∈ leaves type.members, userName leaf.content.type ≠ some []))

theorem Spellable.name {type : NamedType} (hspellable : Spellable type) : type.name ≠ [] := by
  cases type with
  | aliasType name => exact hspellable
  | intLikeType type => exact hspellable.1
  | structType type => exact hspellable.1

theorem rows_yield {type : IntLikeType} (hvalues : ∀ v ∈ type.values, v ≠ [])
    (hflags : type.isFlags = true → type.values ≠ []) :
    ∃ width, (when (HasRows type) (generateValues cnaming type)).Yields
      ((if HasRows type then [.lineBreak] else []) ++ noFlags width type ++
        enumerators cnaming width type) () := by
  by_cases hrows : HasRows type
  · have hne : type.values ≠ [] := by
      rcases hrows with hlength | hisFlags
      · exact List.ne_nil_of_length_pos hlength
      · exact hflags hisFlags
    obtain ⟨width, hwidth⟩ := exists_columnWidth hne hvalues
    refine ⟨width, ?_⟩
    rw [when, if_pos hrows, if_pos hrows]
    exact generateValues_yields cnaming hvalues hwidth
  · obtain ⟨hlength, hisFlags⟩ := not_or.mp hrows
    have hnil : type.values = [] := List.eq_nil_of_length_eq_zero (Nat.eq_zero_of_not_pos hlength)
    refine ⟨0, ?_⟩
    rw [when, if_neg hrows, if_neg hrows, noFlags, if_neg hisFlags, enumerators, hnil]
    exact yields_pure ()

theorem generateDefinition_yields {type : NamedType} (hspellable : Spellable type)
    (hvalues : HasValues type) :
    ∃ width, (generateDefinition cnaming (spelled type.name) (cnaming.ctypename type.name)
      type).Yields (definitionLines cnaming width type) () := by
  cases type with
  | aliasType name => exact ⟨0, yields_print _⟩
  | structType type => exact ⟨0, yields_print _⟩
  | intLikeType type =>
      obtain ⟨width, hrows⟩ := rows_yield cnaming hspellable.2 hvalues
      have hoperators := yields_when (c := type.isFlags = true) fun _ =>
        generateOperators_yields (spelled type.name) (cnaming.ctypename type.name)
      exact ⟨width, (yields_print _).bind (hrows.bind ((yields_print _).bind hoperators))⟩

theorem generateType_yields {type : NamedType} (hspellable : Spellable type)
    (hvalues : type.name ∉ skip → HasValues type) :
    ∃ width, (generateType cnaming skip type).Yields
      (if type.name ∉ skip then definitionLines cnaming width type else []) () := by
  have hspelled := yields_lift (ω := TypeLine) (mangle_eq_spelled hspellable.name)
  by_cases hskip : type.name ∈ skip
  · exact ⟨0, hspelled.bind (yields_when fun hnot => absurd hskip hnot)⟩
  · obtain ⟨width, hdefinition⟩ := generateDefinition_yields cnaming hspellable (hvalues hskip)
    exact ⟨width, hspelled.bind (yields_when fun _ => hdefinition)⟩

theorem generateType_raises {type : IntLikeType} (hname : type.name ≠ [])
    (hskip : type.name ∉ skip) (hisFlags : type.isFlags = true) (hvalues : type.values = []) :
    (generateType cnaming skip (.intLikeType type)).Raises
      [.enumHead (spelled type.name) (cnaming.ctypename type.name), .lineBreak] .valueError := by
  have hrows := raises_when (c := HasRows type) (Or.inr hisFlags)
    (generateValues_raises cnaming hvalues)
  apply (yields_lift (mangle_eq_spelled hname)).bind_raises
  apply raises_when hskip
  exact (yields_print _).bind_raises (hrows.bind _)

/-- What is printed for a type, whether or not the generator stumbles over it. -/
def printedLines (width : Nat) (type : NamedType) : List TypeLine :=
  if HasValues type then definitionLines cnaming width type
  else [.enumHead (spelled type.name) (cnaming.ctypename type.name), .lineBreak]

theorem exists_of_not_hasValues {type : NamedType} (hvalues : ¬ HasValues type) :
    ∃ t, type = .intLikeType t ∧ t.isFlags = true ∧ t.values = [] := by
  cases type with
  | aliasType name => exact absurd trivial hvalues
  | structType type => exact absurd trivial hvalues
  | intLikeType type =>
      obtain ⟨hisFlags, hempty⟩ := Classical.not_imp.mp hvalues
      exact ⟨type, rfl, hisFlags, not_not.mp hempty⟩

theorem output_generateType {type : NamedType} (hspellable : Spellable type) :
    ∃ width, (generateType cnaming skip type).output =
      if type.name ∉ skip then printedLines cnaming width type else [] := by
  rcases Decidable.em (type.name ∉ skip → HasValues type) with hvalues | hvalues
  · obtain ⟨width, hyields⟩ := generateType_yields cnaming skip hspellable hvalues
    refine ⟨width, hyields.output.trans (ite_congr rfl (fun hskip => ?_) fun _ => rfl)⟩
    exact (if_pos (hvalues hskip)).symm
  · obtain ⟨hskip, hempty⟩ := Classical.not_imp.mp hvalues
    obtain ⟨t, rfl, hisFlags, hnil⟩ := exists_of_not_hasValues hempty
    have hraises := generateType_raises cnaming skip hspellable.1 hskip hisFlags hnil
    refine ⟨0, ?_⟩
    rw [hraises.output, if_pos hskip, printedLines, if_neg hempty]
    rfl

end TypeDefs

section StructDefs

variable (sub : Submodule)

theorem exists_spelling {type : AbiType} (htype : userName type ≠ some []) :
    (∃ text, typename type = .ok text) ∧
      ∀ name parens, ∃ text, vardecl type name parens = .ok text := by
  induction type with
  | void => exact ⟨⟨_, rfl⟩, fun _ _ => ⟨_, rfl⟩⟩
  | int base => exact ⟨⟨_, rfl⟩, fun _ _ => ⟨_, rfl⟩⟩
  | user base =>
      have hmangle := exists_mangle fun hnil => htype (congrArg some hnil)
      exact ⟨hmangle, fun name _ => exists_map hmangle (declare name)⟩
  | atomic target ih =>
      have htypename := exists_map (ih htype).1 atomicTypename
      exact ⟨htypename, fun name _ => exists_map htypename (declare name)⟩
  | pointer target const ih =>
      refine ⟨exists_map ((ih htype).2 ['*'] true) (qualify const), fun name _ => ?_⟩
      exact exists_map ((ih htype).2 ('*' :: name) true) (qualify const)
  | array count element ih =>
      refine ⟨(ih htype).2 (arrayDeclarator [] false count) false, fun name parens => ?_⟩
      exact (ih htype).2 (arrayDeclarator name parens count) false

/-- The names that are spelled in a line. -/
def spelledNames : Line → List Text
  | .simple _ _ type _ => (userName type).toList
  | .range _ target _ _ => (userName target).toList
  | .assertSizeof struct => [struct]
  | .assertAlignof struct => [struct]
  | .assertOffsetof struct _ _ => [struct]
  | .structHead struct => [struct]
  | _ => []

theorem exists_text {line : Line} (hnames : [] ∉ spelledNames line) :
    ∃ text, line.text sub = .ok text := by
  have hstruct : ∀ struct : Text, [] ∉ [struct] → ∃ text, mangle struct = .ok text :=
    fun struct hne => exists_mangle fun hnil => hne (hnil ▸ List.mem_singleton_self _)
  have huser : ∀ type, [] ∉ (userName type).toList → userName type ≠ some [] :=
    fun type hne hsome => hne (by rw [hsome]; exact List.mem_singleton_self _)
  cases line with
  | simple indent qualified type name =>
      exact exists_map ((exists_spelling (huser type hnames)).2 name false) _
  | range indent target const name =>
      exact exists_map (exists_spelling (huser target hnames)).1 _
  | assertSizeof struct => exact exists_map (hstruct struct hnames) _
  | assertAlignof struct => exact exists_map (hstruct struct hnames) _
  | assertOffsetof struct memname cmemname => exact exists_map (hstruct struct hnames) _
  | structHead struct => exact exists_map (hstruct struct hnames) _
  | _ => exact ⟨_, rfl⟩

def leafNames (ls : List Leaf) : List Text :=
  ls.flatMap fun leaf => (userName leaf.content.type).toList

theorem leafNames_append (ls more : List Leaf) :
    leafNames (ls ++ more) = leafNames ls ++ leafNames more :=
  List.flatMap_append

theorem leafNames_under (alternative : Option Text) (ls : List Leaf) :
    leafNames (ls.map (Leaf.under alternative)) = leafNames ls := by
  rw [leafNames, List.flatMap_map]
  rfl

mutual

theorem spelledNames_structMembers : ∀ (ms : List StructMember) (indent : Text)
    (reservedNames names : List Text),
    (structMembers sub ms indent reservedNames names).flatMap spelledNames = leafNames (leaves ms)
  | [], _, _, _ => rfl
  | m :: ms, indent, reservedNames, names => by
      rw [structMembers, List.flatMap_append, spelledNames_structMember m,
        spelledNames_structMembers ms, leaves, leafNames_append]

theorem spelledNames_structMember : ∀ (m : StructMember) (indent : Text)
    (reservedNames names : List Text),
    (structMember sub m indent reservedNames names).flatMap spelledNames =
      leafNames (memberLeaves m)
  | .simple _ _, _, _, _ => by
      simp [structMember, memberLeaves, leafNames, spelledNames, Content.type]
  | .range _ _ _, _, _, _ => by
      simp [structMember, memberLeaves, leafNames, spelledNames, Content.type]
  | .variant _ xs, indent, _, names => by
      simp [structMember, memberLeaves, spelledNames,
        spelledNames_structAlternatives xs indent names]

theorem spelledNames_structAlternatives : ∀ (xs : List VariantMember) (indent : Text)
    (names : List Text),
    (structAlternatives sub xs indent names).flatMap spelledNames =
      leafNames (alternativesLeaves xs)
  | [], _, _ => rfl
  | x :: xs, indent, names => by
      rw [structAlternatives, List.flatMap_append, spelledNames_structAlternative x,
        spelledNames_structAlternatives xs, alternativesLeaves, leafNames_append]

theorem spelledNames_structAlternative : ∀ (x : VariantMember) (indent : Text)
    (names : List Text),
    (structAlternative sub x indent names).flatMap spelledNames = leafNames (alternativeLeaves x)
  | .mk none ms, indent, names => by
      rw [alternativeLeaves, leafNames_under]
      exact spelledNames_structMembers ms (indent ++ lit "  ") names []
  | .mk (some name) ms, indent, names => by
      rw [alternativeLeaves, leafNames_under,
        ← spelledNames_structMembers ms (indent ++ lit "    ") names []]
      simp [structAlternative, spelledNames]

end

def structLines : NamedType → List Line
  | .structType type => generateStruct sub type
  | _ => []

theorem nil_not_mem_spelledNames {type : StructType} (hname : type.name ≠ [])
    (hleaves : ∀ leaf ∈ leaves type.members, userName leaf.content.type ≠ some []) :
    [] ∉ (generateStruct sub type).flatMap spelledNames := by
  have hmembers : [] ∉ leafNames (leaves type.members) := by
    intro hmem
    obtain ⟨leaf, hleaf, hnil⟩ := List.mem_flatMap.mp hmem
    exact hleaves leaf hleaf (Option.mem_toList.mp hnil)
  rw [generateStruct, generateStructAsserts_eq, generateStructMembers]
  simp [spelledNames_structMembers, spelledNames, Leaf.assertLine, hmembers, hname.symm]

theorem generateStructType_yields (skip : List Text) {type : NamedType}
    (hspellable : Spellable type) :
    (StructDefs.generateType sub skip type).Yields
      (if type.name ∉ skip then structLines sub type else []) () := by
  apply yields_when
  intro _
  cases type with
  | aliasType name => exact yields_pure ()
  | intLikeType type => exact yields_pure ()
  | structType type =>
      have hnames := nil_not_mem_spelledNames sub hspellable.1 hspellable.2
      have hlines : ∀ line ∈ generateStruct sub type,
          (printLine sub line).Yields [id line] () := by
        intro line hline
        obtain ⟨text, htext⟩ := exists_text sub fun hnil =>
          hnames (List.mem_flatMap.mpr ⟨line, hline, hnil⟩)
        exact (yields_lift htext).bind (yields_print line)
      have hforM := yields_forM hlines
      rwa [List.map_id] at hforM

end StructDefs

section Generators

variable (cnaming : CNaming) (typeSkip structSkip : List Text)

/-- An enumeration of `none = 0` and of the values in their order, and then the
three operators. -/
def PrintsFlags (type : IntLikeType) (lines : List TypeLine) : Prop :=
  ∃ name width rows, mangle type.name = .ok name ∧
    lines = .enumHead name (cnaming.ctypename type.name) :: .lineBreak ::
      .enumerator width (lit "none") ['0'] :: rows ++
        [.enumFoot, .binaryOperator '|' name (cnaming.ctypename type.name),
          .binaryOperator '&' name (cnaming.ctypename type.name),
          .unaryOperator name (cnaming.ctypename type.name)] ∧
    List.Forall₂ (fun v row => ∃ text, valname v = .ok text ∧
      row = .enumerator width text (cnaming.cvalname type v)) type.values rows

/-- Both generators get through the type. -/
structure Generated (type : NamedType) : Prop where
  typeDefs : (TypeDefs.generateType cnaming typeSkip type).Completes
  structDefs : (StructDefs.generateType cnaming.toSubmodule structSkip type).Completes
  flags : ∀ t, type = .intLikeType t → t.isFlags = true → t.name ∉ typeSkip →
    PrintsFlags cnaming t (TypeDefs.generateType cnaming typeSkip type).output

theorem intLikeLines_printsFlags {type : IntLikeType} (hname : type.name ≠ [])
    (hvalues : ∀ v ∈ type.values, v ≠ []) (hisFlags : type.isFlags = true) (width : Nat) :
    PrintsFlags cnaming type (intLikeLines cnaming width type) := by
  refine ⟨spelled type.name, width, enumerators cnaming width type, mangle_eq_spelled hname,
    ?_, ?_⟩
  · have hrows : HasRows type := Or.inr hisFlags
    rw [intLikeLines, if_pos hrows, noFlags, operators, if_pos hisFlags, if_pos hisFlags]
    rfl
  · apply List.forall₂_map_right_iff.mpr
    apply List.forall₂_same.mpr
    intro v hv
    exact ⟨spelled v, mangle_eq_spelled (hvalues v hv), rfl⟩

theorem generated_iff {type : NamedType} (hspellable : Spellable type) :
    Generated cnaming typeSkip structSkip type ↔ (type.name ∉ typeSkip → HasValues type) := by
  constructor
  · rintro ⟨hcompletes, -, -⟩ hskip
    cases type with
    | aliasType name => trivial
    | structType type => trivial
    | intLikeType type =>
        intro hisFlags hvalues
        have hraises := generateType_raises cnaming typeSkip hspellable.1 hskip hisFlags hvalues
        exact hraises.not_completes hcompletes
  · intro hvalues
    obtain ⟨width, hyields⟩ := generateType_yields cnaming typeSkip hspellable hvalues
    refine ⟨hyields.completes,
      (generateStructType_yields cnaming.toSubmodule structSkip hspellable).completes, ?_⟩
    rintro t rfl hisFlags hskip
    have hprinted : (NamedType.intLikeType t).name ∉ typeSkip := hskip
    rw [hyields.output, if_pos hprinted]
    exact intLikeLines_printsFlags cnaming hspellable.1 hspellable.2 hisFlags width

/-- The generators get through an ABI, and print each set of flags with its
operators, exactly if every set of flags that is not skipped has a value. -/
theorem generators_complete_iff {types : List NamedType}
    (hspellable : ∀ type ∈ types, Spellable type) :
    (∀ type ∈ types, Generated cnaming typeSkip structSkip type) ↔
      ∀ type ∈ types, type.name ∉ typeSkip → HasValues type := by
  constructor
  · intro hgenerated type htype
    exact (generated_iff cnaming typeSkip structSkip (hspellable type htype)).mp
      (hgenerated type htype)
  · intro hvalues type htype
    exact (generated_iff cnaming typeSkip structSkip (hspellable type htype)).mpr
      (hvalues type htype)

/-- Flags as in `types.hpp`, and a struct. -/
def mflagsAbi : List NamedType := [.intLikeType mflags, .structType twoUserdata]

theorem spellable_mflagsAbi : ∀ type ∈ mflagsAbi, Spellable type := by
  refine List.forall_mem_cons.mpr ⟨by decide +kernel, ?_⟩
  exact List.forall_mem_singleton.mpr (by decide +kernel)

theorem mflagsAbi_generated :
    Generated mflagsNaming [] [] (.intLikeType mflags) ∧
      Generated mflagsNaming [] [] (.structType twoUserdata) := by
  have hvalues : ∀ type ∈ mflagsAbi, type.name ∉ [] → HasValues type := by
    refine List.forall_mem_cons.mpr ⟨fun _ _ => List.cons_ne_nil _ _, ?_⟩
    exact List.forall_mem_singleton.mpr fun _ => trivial
  have hgenerated := (generators_complete_iff mflagsNaming [] [] spellable_mflagsAbi).mpr hvalues
  exact ⟨hgenerated _ (by simp [mflagsAbi]), hgenerated _ (by simp [mflagsAbi])⟩

def emptyFlags : IntLikeType where
  name := lit "riflags"
  isFlags := true
  values := []

theorem emptyFlags_not_generated :
    Spellable (.intLikeType emptyFlags) ∧
      ¬ ∀ type ∈ [NamedType.intLikeType emptyFlags], Generated mflagsNaming [] [] type := by
  constructor
  · decide +kernel
  · intro hgenerated
    obtain ⟨u, hu⟩ := (hgenerated _ (List.mem_singleton_self _)).typeDefs
    have hraises : (TypeDefs.generateType mflagsNaming []
        (.intLikeType emptyFlags)).result.toBool = false := by
      decide +kernel
    rw [hu] at hraises
    cases hraises

end Generators

end CloudabiCpp.Generator.Completion

import Mathlib.Data.List.Dedup
import CloudabiCpp.Generator.Completion
import CloudabiCpp.Generator.StructScopes

/-!
The identifiers that the generators declare, scope by scope, as they stand in
the printed output. Types and values are spelled by `mangle`, and clash only if
one is the spelling of another or a value is called like the enumerator that
flags get on top; members are printed as they are.
-/

namespace CloudabiCpp.Generator.Identifiers

open CloudabiCpp.Generator.Abi
open CloudabiCpp.Generator.CppNaming
open CloudabiCpp.Generator.StructDefs
open CloudabiCpp.Generator.TypeDefs
open CloudabiCpp.Generator.NameLookup
open CloudabiCpp.Generator.StructScopes
open CloudabiCpp.Generator.Completion

def declaredType : TypeLine → Option Text
  | .using name _ => some name
  | .enumHead name _ => some name
  | .struct name => some name
  | _ => none

def enumeratorName : TypeLine → Option Text
  | .enumerator _ name _ => some name
  | _ => none

section Declared

variable (cnaming : CNaming) (skip : List Text)

def enumeratorNames (type : IntLikeType) : List Text :=
  (if type.isFlags = true ∧ type.values ≠ [] then [lit "none"] else []) ++
    type.values.map spelled

theorem declaredTypes_definitionLines (width : Nat) (type : NamedType) :
    (definitionLines cnaming width type).filterMap declaredType = [spelled type.name] := by
  cases type with
  | aliasType name => rfl
  | structType type => rfl
  | intLikeType type =>
      have hrows : (enumerators cnaming width type).filterMap declaredType = [] := by
        simp [enumerators, declaredType]
      simp [definitionLines, intLikeLines, noFlags, operators, List.filterMap_cons,
        apply_ite (List.filterMap declaredType), hrows, declaredType, NamedType.name]

theorem enumerators_intLikeLines (width : Nat) {type : IntLikeType}
    (hvalues : HasValues (.intLikeType type)) :
    (intLikeLines cnaming width type).filterMap enumeratorName = enumeratorNames type := by
  have hrows : (enumerators cnaming width type).filterMap enumeratorName =
      type.values.map spelled := by
    rw [enumerators, List.filterMap_map]
    exact congrFun List.filterMap_eq_map type.values
  have hnone : type.isFlags = true ∧ type.values ≠ [] ↔ type.isFlags = true :=
    and_iff_left_of_imp hvalues
  simp only [enumeratorNames, hnone]
  simp [intLikeLines, noFlags, operators, List.filterMap_cons,
    apply_ite (List.filterMap enumeratorName), hrows, enumeratorName]

theorem declaredTypes_printedLines (width : Nat) (type : NamedType) :
    (printedLines cnaming width type).filterMap declaredType = [spelled type.name] := by
  unfold printedLines
  split_ifs
  · exact declaredTypes_definitionLines cnaming width type
  · rfl

def enumeratorsOf : NamedType → List Text
  | .intLikeType type => enumeratorNames type
  | _ => []

theorem enumerators_printedLines (width : Nat) (type : NamedType) :
    (printedLines cnaming width type).filterMap enumeratorName = enumeratorsOf type := by
  cases type with
  | aliasType name => rfl
  | structType type => rfl
  | intLikeType type =>
      unfold printedLines
      split_ifs with hvalues
      · exact enumerators_intLikeLines cnaming width hvalues
      · obtain ⟨-, hempty⟩ := Classical.not_imp.mp hvalues
        rw [enumeratorsOf, enumeratorNames, not_not.mp hempty]
        simp [enumeratorName]

theorem declaredTypes_generateType {type : NamedType} (hspellable : Spellable type) :
    (TypeDefs.generateType cnaming skip type).output.filterMap declaredType =
      if type.name ∉ skip then [spelled type.name] else [] := by
  obtain ⟨width, houtput⟩ := output_generateType cnaming skip hspellable
  rw [houtput, apply_ite (List.filterMap declaredType), declaredTypes_printedLines]
  rfl

theorem enumerators_generateType {type : NamedType} (hspellable : Spellable type) :
    (TypeDefs.generateType cnaming skip type).output.filterMap enumeratorName =
      if type.name ∉ skip then enumeratorsOf type else [] := by
  obtain ⟨width, houtput⟩ := output_generateType cnaming skip hspellable
  rw [houtput, apply_ite (List.filterMap enumeratorName), enumerators_printedLines]
  rfl

def scopesIn : NamedType → List (List Text)
  | .structType type => structScopes type
  | _ => [[]]

theorem scopesOf_generateType (sub : Submodule) {type : NamedType}
    (hspellable : Spellable type) :
    scopesOf (StructDefs.generateType sub skip type).output =
      if type.name ∉ skip then scopesIn type else [[]] := by
  have hlines : scopesOf (structLines sub type) = scopesIn type := by
    cases type with
    | aliasType name => rfl
    | intLikeType type => rfl
    | structType type => exact scopesOf_generateStruct sub type
  rw [(generateStructType_yields sub skip hspellable).output, apply_ite scopesOf, hlines]
  rfl

end Declared

section Scopes

def DistinctLegal (names : List Text) : Prop :=
  names.Nodup ∧ ∀ name ∈ names, Legal name

instance (names : List Text) : Decidable (DistinctLegal names) :=
  have : Decidable (∀ name ∈ names, Legal name) := List.decidableBAll Legal names
  inferInstanceAs (Decidable (_ ∧ _))

theorem none_mem_spelled_iff {values : List Text} (hvalues : ∀ v ∈ values, v ≠ []) :
    lit "none" ∈ values.map spelled ↔ lit "none" ∈ values := by
  have hnone : spelled (lit "none") = lit "none" := by decide +kernel
  constructor
  · intro hmem
    obtain ⟨v, hv, hspelled⟩ := List.mem_map.mp hmem
    rcases mangle_cases (mangle_eq_spelled (hvalues v hv)) with hrenamed | ⟨hkept, -, -⟩
    · exact absurd hspelled hrenamed.kept.2.2
    · rwa [← hspelled, hkept]
  · intro hmem
    rw [← hnone]
    exact List.mem_map_of_mem hmem

theorem legal_of_mem_spelled {names : List Text} (hnames : ∀ name ∈ names, name ≠ []) :
    ∀ text ∈ names.map spelled, Legal text := by
  rw [List.forall_mem_map]
  intro name hname
  exact legal_spelled (hnames name hname)

/-- Values clash with each other, or with the enumerator of no flags. -/
theorem enumeratorNames_distinctLegal_iff {type : IntLikeType}
    (hvalues : ∀ v ∈ type.values, v ≠ []) (hnodup : type.values.Nodup) :
    DistinctLegal (enumeratorNames type) ↔
      (∀ a ∈ type.values, ∀ b ∈ type.values, ¬ Renamed a b) ∧
        (type.isFlags = true → lit "none" ∉ type.values) := by
  have hnone : Legal (lit "none") := by decide +kernel
  have hlegal : ∀ name ∈ enumeratorNames type, Legal name := by
    refine List.forall_mem_append.mpr ⟨?_, legal_of_mem_spelled hvalues⟩
    split_ifs
    · exact List.forall_mem_singleton.mpr hnone
    · exact List.forall_mem_nil _
  rw [DistinctLegal, and_iff_left hlegal, enumeratorNames]
  by_cases hadded : type.isFlags = true ∧ type.values ≠ []
  · rw [if_pos hadded, List.singleton_append, List.nodup_cons, none_mem_spelled_iff hvalues,
      nodup_spelled_iff hvalues hnodup, and_comm]
    exact and_congr_right fun _ => ⟨fun hfresh _ => hfresh, fun hfresh => hfresh hadded.1⟩
  · rw [if_neg hadded, List.nil_append, nodup_spelled_iff hvalues hnodup]
    symm
    apply and_iff_left
    intro hisFlags
    have hnil : type.values = [] := by_contra fun hne => hadded ⟨hisFlags, hne⟩
    rw [hnil]
    exact List.not_mem_nil

end Scopes

section Namespace

variable (cnaming : CNaming) (typeSkip structSkip : List Text)

/-- What the two generators declare for a type. A struct is declared by one and
defined by the other under the same name. -/
def declaredFor (type : NamedType) : List Text :=
  ((TypeDefs.generateType cnaming typeSkip type).output.filterMap declaredType ++
    (StructDefs.generateType cnaming.toSubmodule structSkip type).output.filterMap
      definedStruct).dedup

def namespaceNames (types : List NamedType) : List Text :=
  types.flatMap (declaredFor cnaming typeSkip structSkip)

def IsStruct : NamedType → Prop
  | .structType _ => True
  | _ => False

instance : (type : NamedType) → Decidable (IsStruct type)
  | .structType _ => isTrue trivial
  | .aliasType _ | .intLikeType _ => isFalse id

def Declared (type : NamedType) : Prop :=
  type.name ∉ typeSkip ∨ IsStruct type ∧ type.name ∉ structSkip

instance (type : NamedType) : Decidable (Declared typeSkip structSkip type) :=
  inferInstanceAs (Decidable (_ ∨ _))

theorem definedStructs_generateType {type : NamedType} (hspellable : Spellable type) :
    (StructDefs.generateType cnaming.toSubmodule structSkip type).output.filterMap definedStruct =
      if IsStruct type ∧ type.name ∉ structSkip then [spelled type.name] else [] := by
  have hlines : (structLines cnaming.toSubmodule type).filterMap definedStruct =
      if IsStruct type then [spelled type.name] else [] := by
    cases type with
    | aliasType name => rfl
    | intLikeType type => rfl
    | structType type => exact definedStructs_generateStruct cnaming.toSubmodule hspellable.1
  have hyields := generateStructType_yields cnaming.toSubmodule structSkip hspellable
  rw [hyields.output]
  by_cases hskip : type.name ∈ structSkip
  · simp [hskip]
  · simp [hskip, hlines]

theorem declaredFor_eq {type : NamedType} (hspellable : Spellable type) :
    declaredFor cnaming typeSkip structSkip type =
      if Declared typeSkip structSkip type then [spelled type.name] else [] := by
  rw [declaredFor, declaredTypes_generateType cnaming typeSkip hspellable,
    definedStructs_generateType cnaming structSkip hspellable]
  by_cases htype : type.name ∉ typeSkip
  · by_cases hstruct : IsStruct type ∧ type.name ∉ structSkip
    · simp [Declared, htype, hstruct]
    · simp [Declared, htype, hstruct]
  · by_cases hstruct : IsStruct type ∧ type.name ∉ structSkip
    · simp [Declared, htype, hstruct]
    · simp [Declared, htype, hstruct]

theorem namespaceNames_eq {types : List NamedType}
    (hspellable : ∀ type ∈ types, Spellable type) :
    namespaceNames cnaming typeSkip structSkip types =
      ((types.filter (Declared typeSkip structSkip)).map NamedType.name).map spelled := by
  induction types with
  | nil => rfl
  | cons type types ih =>
      obtain ⟨htype, htypes⟩ := List.forall_mem_cons.mp hspellable
      rw [namespaceNames, List.flatMap_cons, declaredFor_eq cnaming typeSkip structSkip htype]
      have hrest := ih htypes
      rw [namespaceNames] at hrest
      rw [hrest]
      by_cases hdeclared : Declared typeSkip structSkip type
      · simp [hdeclared]
      · simp [hdeclared]

theorem namespaceNames_distinctLegal_iff {types : List NamedType}
    (hspellable : ∀ type ∈ types, Spellable type)
    (hnodup : (types.map NamedType.name).Nodup) :
    DistinctLegal (namespaceNames cnaming typeSkip structSkip types) ↔
      ∀ a ∈ types, ∀ b ∈ types, Declared typeSkip structSkip a → Declared typeSkip structSkip b →
        ¬ Renamed a.name b.name := by
  let declared := types.filter (Declared typeSkip structSkip)
  have hnames : ∀ name ∈ declared.map NamedType.name, name ≠ [] :=
    List.forall_mem_map.mpr fun type htype => (hspellable type (List.mem_of_mem_filter htype)).name
  have hdeclared : (declared.map NamedType.name).Nodup :=
    hnodup.sublist (List.filter_sublist.map NamedType.name)
  rw [namespaceNames_eq cnaming typeSkip structSkip hspellable, DistinctLegal,
    and_iff_left (legal_of_mem_spelled hnames), nodup_spelled_iff hnames hdeclared]
  constructor
  · intro hclear a ha b hb hdeclaredA hdeclaredB
    refine hclear a.name (List.mem_map_of_mem ?_) b.name (List.mem_map_of_mem ?_)
    · exact List.mem_filter.mpr ⟨ha, decide_eq_true hdeclaredA⟩
    · exact List.mem_filter.mpr ⟨hb, decide_eq_true hdeclaredB⟩
  · intro hclear
    rw [List.forall_mem_map]
    intro a ha
    rw [List.forall_mem_map]
    intro b hb
    obtain ⟨hmemA, hdeclaredA⟩ := List.mem_filter.mp ha
    obtain ⟨hmemB, hdeclaredB⟩ := List.mem_filter.mp hb
    exact hclear a hmemA b hmemB (of_decide_eq_true hdeclaredA) (of_decide_eq_true hdeclaredB)

end Namespace

section Generators

variable (cnaming : CNaming) (typeSkip structSkip : List Text)

/-- The ABI gives the values of a type, or the members of each scope of a struct,
distinct names. -/
def DistinctInside : NamedType → Prop
  | .aliasType _ => True
  | .intLikeType type => type.values.Nodup
  | .structType type => ∀ scope ∈ structScopes type, scope.Nodup

/-- What is declared inside the braces that are printed for a type. -/
structure DeclaresInside (type : NamedType) : Prop where
  enumerators : DistinctLegal
    ((TypeDefs.generateType cnaming typeSkip type).output.filterMap enumeratorName)
  members : ∀ scope ∈ scopesOf
    (StructDefs.generateType cnaming.toSubmodule structSkip type).output, DistinctLegal scope

/-- No value is the spelling of another or `none`, and members are printed as
they are. -/
def UsableInside : NamedType → Prop
  | .aliasType _ => True
  | .intLikeType type => type.name ∉ typeSkip →
      (∀ a ∈ type.values, ∀ b ∈ type.values, ¬ Renamed a b) ∧
        (type.isFlags = true → lit "none" ∉ type.values)
  | .structType type => type.name ∉ structSkip →
      ∀ scope ∈ structScopes type, ∀ name ∈ scope, Legal name

instance decidableDistinctInside : (type : NamedType) → Decidable (DistinctInside type)
  | .aliasType _ => isTrue trivial
  | .intLikeType type => inferInstanceAs (Decidable type.values.Nodup)
  | .structType type => List.decidableBAll List.Nodup (structScopes type)

instance decidableUsableInside : (type : NamedType) →
    Decidable (UsableInside typeSkip structSkip type)
  | .aliasType _ => isTrue trivial
  | .intLikeType type =>
      have : Decidable (∀ a ∈ type.values, ∀ b ∈ type.values, ¬ Renamed a b) :=
        List.decidableBAll (fun a => ∀ b ∈ type.values, ¬ Renamed a b) type.values
      inferInstanceAs (Decidable (type.name ∉ typeSkip → _))
  | .structType type =>
      have : Decidable (∀ scope ∈ structScopes type, ∀ name ∈ scope, Legal name) :=
        List.decidableBAll (fun scope => ∀ name ∈ scope, Legal name) (structScopes type)
      inferInstanceAs (Decidable (type.name ∉ structSkip → _))

theorem distinctLegal_nil : DistinctLegal [] :=
  ⟨List.nodup_nil, List.forall_mem_nil _⟩

theorem distinctLegal_ite_iff {c : Prop} [Decidable c] {names : List Text} :
    DistinctLegal (if c then names else []) ↔ (c → DistinctLegal names) := by
  split_ifs with hc
  · exact (imp_iff_right hc).symm
  · exact iff_of_true distinctLegal_nil fun h => absurd h hc

theorem scopes_ite_iff {c : Prop} [Decidable c] {scopes : List (List Text)} :
    (∀ scope ∈ if c then scopes else [[]], DistinctLegal scope) ↔
      (c → ∀ scope ∈ scopes, DistinctLegal scope) := by
  split_ifs with hc
  · exact (imp_iff_right hc).symm
  · refine iff_of_true ?_ fun h => absurd h hc
    exact List.forall_mem_singleton.mpr distinctLegal_nil

theorem declaresInside_iff_names {type : NamedType} (hspellable : Spellable type) :
    DeclaresInside cnaming typeSkip structSkip type ↔
      (type.name ∉ typeSkip → DistinctLegal (enumeratorsOf type)) ∧
        (type.name ∉ structSkip → ∀ scope ∈ scopesIn type, DistinctLegal scope) := by
  rw [← distinctLegal_ite_iff, ← scopes_ite_iff,
    ← enumerators_generateType cnaming typeSkip hspellable,
    ← scopesOf_generateType structSkip cnaming.toSubmodule hspellable]
  constructor
  · rintro ⟨henumerators, hmembers⟩
    exact ⟨henumerators, hmembers⟩
  · rintro ⟨henumerators, hmembers⟩
    exact ⟨henumerators, hmembers⟩

theorem declaresInside_iff {type : NamedType} (hspellable : Spellable type)
    (hdistinct : DistinctInside type) :
    DeclaresInside cnaming typeSkip structSkip type ↔ UsableInside typeSkip structSkip type := by
  have hnoMembers : ∀ scope ∈ [[]], DistinctLegal scope :=
    List.forall_mem_singleton.mpr distinctLegal_nil
  rw [declaresInside_iff_names cnaming typeSkip structSkip hspellable]
  cases type with
  | aliasType name => exact iff_of_true ⟨fun _ => distinctLegal_nil, fun _ => hnoMembers⟩ trivial
  | intLikeType type =>
      apply (and_iff_left fun _ => hnoMembers).trans
      apply imp_congr_right
      intro _
      exact enumeratorNames_distinctLegal_iff hspellable.2 hdistinct
  | structType type =>
      apply (and_iff_right fun _ => distinctLegal_nil).trans
      apply imp_congr_right
      intro _
      exact forall₂_congr fun scope hscope => and_iff_right (hdistinct scope hscope)

/-- The declared identifiers are legal and distinct in every scope exactly if no
name declared in the namespace is the spelling of another one, no value clashes
and all members that are printed have legal names. -/
theorem identifiers_legal_iff {types : List NamedType}
    (hspellable : ∀ type ∈ types, Spellable type)
    (hnodup : (types.map NamedType.name).Nodup)
    (hdistinct : ∀ type ∈ types, DistinctInside type) :
    (DistinctLegal (namespaceNames cnaming typeSkip structSkip types) ∧
        ∀ type ∈ types, DeclaresInside cnaming typeSkip structSkip type) ↔
      (∀ a ∈ types, ∀ b ∈ types, Declared typeSkip structSkip a →
        Declared typeSkip structSkip b → ¬ Renamed a.name b.name) ∧
        ∀ type ∈ types, UsableInside typeSkip structSkip type := by
  rw [namespaceNames_distinctLegal_iff cnaming typeSkip structSkip hspellable hnodup]
  apply and_congr_right
  intro _
  apply forall₂_congr
  intro type htype
  exact declaresInside_iff cnaming typeSkip structSkip (hspellable type htype)
    (hdistinct type htype)

theorem mflagsAbi_legal :
    DistinctLegal (namespaceNames mflagsNaming [] [] mflagsAbi) ∧
      DeclaresInside mflagsNaming [] [] (.intLikeType mflags) ∧
        DeclaresInside mflagsNaming [] [] (.structType twoUserdata) := by
  have hdistinct : ∀ type ∈ mflagsAbi, DistinctInside type := by
    refine List.forall_mem_cons.mpr ⟨by decide +kernel, ?_⟩
    exact List.forall_mem_singleton.mpr (by decide +kernel)
  have husable : ∀ type ∈ mflagsAbi, UsableInside [] [] type := by
    refine List.forall_mem_cons.mpr ⟨by decide +kernel, ?_⟩
    exact List.forall_mem_singleton.mpr (by decide +kernel)
  have hkept : ∀ type ∈ mflagsAbi, Legal type.name ∧ type.name ≠ lit "errno" := by
    refine List.forall_mem_cons.mpr ⟨by decide +kernel, ?_⟩
    exact List.forall_mem_singleton.mpr (by decide +kernel)
  have hlegal := (identifiers_legal_iff mflagsNaming [] [] spellable_mflagsAbi
    (by decide +kernel) hdistinct).mpr
      ⟨fun a ha _ _ _ _ hrenamed => hrenamed.not_legal (hkept a ha).2 (hkept a ha).1, husable⟩
  exact ⟨hlegal.1, hlegal.2 _ (by simp [mflagsAbi]), hlegal.2 _ (by simp [mflagsAbi])⟩

/-- A struct with a member that is a reserved word. -/
def deleteMember : StructType where
  name := lit "request"
  members := [.simple (lit "delete") (.int (lit "uint8"))]

theorem deleteMember_not_legal :
    Spellable (.structType deleteMember) ∧ DistinctInside (.structType deleteMember) ∧
      ¬ (DistinctLegal (namespaceNames mflagsNaming [] [] [.structType deleteMember]) ∧
        ∀ type ∈ [NamedType.structType deleteMember],
          DeclaresInside mflagsNaming [] [] type) := by
  refine ⟨by decide +kernel, by decide +kernel, ?_⟩
  intro hlegal
  have hmembers := (hlegal.2 _ (List.mem_singleton_self _)).members
  have hdelete := hmembers [lit "delete"] (by decide +kernel)
  revert hdelete
  decide +kernel

example :
    ¬ DistinctLegal (namespaceNames mflagsNaming [] []
      [.aliasType (lit "errno"), .aliasType (lit "error")]) ∧
    ¬ DistinctLegal (enumeratorNames
      { name := lit "eventrwflags", isFlags := true, values := [lit "none"] }) := by
  decide +kernel

end Generators

end CloudabiCpp.Generator.Identifiers

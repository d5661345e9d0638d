import CloudabiCpp.Generator.StructsHeader

/-!
Which members of a printed struct share storage. In the ABI the alternatives of a
variant do, while the members of one alternative lie side by side; the members of
an unnamed alternative become members of the union itself.
-/

namespace CloudabiCpp.Generator.StorageSharing

open CloudabiCpp.Lib.Lexer
open CloudabiCpp.Lib.Declarations
open CloudabiCpp.Lib.Aggregates
open CloudabiCpp.Lib.ClassReader
open CloudabiCpp.Lib.Headers
open CloudabiCpp.Generator.Abi
open CloudabiCpp.Generator.CppNaming
open CloudabiCpp.Generator.StructDefs
open CloudabiCpp.Generator.OffsetAsserts
open CloudabiCpp.Generator.StructReading
open CloudabiCpp.Generator.StructsHeader

def fieldOf (leaf : Leaf) : Field := ⟨leaf.path, denoteContent leaf.content⟩

def fieldPair : Leaf × Leaf → Field × Field := Prod.map fieldOf fieldOf

def underPair (alternative : Option Text) : Leaf × Leaf → Leaf × Leaf :=
  Prod.map (Leaf.under alternative) (Leaf.under alternative)

mutual

/-- The pairs of members that share storage in the ABI: they lie in different
alternatives of a variant. -/
def shared : List StructMember → List (Leaf × Leaf)
  | [] => []
  | m :: ms => memberShared m ++ shared ms
termination_by structural ms => ms

def memberShared : StructMember → List (Leaf × Leaf)
  | .simple _ _ => []
  | .range _ _ _ => []
  | .variant _ xs => crossPairs (xs.map alternativeLeaves) ++ alternativesShared xs
termination_by structural m => m

def alternativesShared : List VariantMember → List (Leaf × Leaf)
  | [] => []
  | x :: xs => alternativeShared x ++ alternativesShared xs
termination_by structural xs => xs

def alternativeShared : VariantMember → List (Leaf × Leaf)
  | .mk name ms => (shared ms).map (underPair name)
termination_by structural x => x

end

mutual

/-- The pairs of members of an unnamed alternative. -/
def collapsed : List StructMember → List (Leaf × Leaf)
  | [] => []
  | m :: ms => memberCollapsed m ++ collapsed ms
termination_by structural ms => ms

def memberCollapsed : StructMember → List (Leaf × Leaf)
  | .simple _ _ => []
  | .range _ _ _ => []
  | .variant _ xs => alternativesCollapsed xs
termination_by structural m => m

def alternativesCollapsed : List VariantMember → List (Leaf × Leaf)
  | [] => []
  | x :: xs => alternativeCollapsed x ++ alternativesCollapsed xs
termination_by structural xs => xs

def alternativeCollapsed : VariantMember → List (Leaf × Leaf)
  | .mk none ms => (crossPairs (ms.map memberLeaves) ++ collapsed ms).map (underPair none)
  | .mk (some name) ms => (collapsed ms).map (underPair (some name))
termination_by structural x => x

end

/-- At most one of the members holds anything. -/
def OneHolds (ms : List StructMember) : Prop :=
  ms.Pairwise fun m m' => memberLeaves m = [] ∨ memberLeaves m' = []

mutual

/-- In every unnamed alternative at most one member holds anything. -/
def Unmixed : List StructMember → Prop
  | [] => True
  | m :: ms => UnmixedMember m ∧ Unmixed ms
termination_by structural ms => ms

def UnmixedMember : StructMember → Prop
  | .simple _ _ => True
  | .range _ _ _ => True
  | .variant _ xs => UnmixedAlternatives xs
termination_by structural m => m

def UnmixedAlternatives : List VariantMember → Prop
  | [] => True
  | x :: xs => UnmixedAlternative x ∧ UnmixedAlternatives xs
termination_by structural xs => xs

def UnmixedAlternative : VariantMember → Prop
  | .mk none ms => OneHolds ms ∧ Unmixed ms
  | .mk (some _) ms => Unmixed ms
termination_by structural x => x

end

section Fields

mutual

theorem fields_membersOf : ∀ ms : List StructMember,
    fields (membersOf ms) = (leaves ms).map fieldOf
  | [] => rfl
  | m :: ms => by
      rw [membersOf, fields, memberFields_memberOf m, fields_membersOf ms, leaves, List.map_append]

theorem memberFields_memberOf : ∀ m : StructMember,
    memberFields (memberOf m) = (memberLeaves m).map fieldOf
  | .simple _ _ => rfl
  | .range _ _ _ => rfl
  | .variant _ xs => fields_alternativesOf xs

theorem fields_alternativesOf : ∀ xs : List VariantMember,
    fields (alternativesOf xs) = (alternativesLeaves xs).map fieldOf
  | [] => rfl
  | x :: xs => by
      rw [alternativesOf, fields_append, fields_alternativeOf x, fields_alternativesOf xs,
        alternativesLeaves, List.map_append]

theorem fields_alternativeOf : ∀ x : VariantMember,
    fields (alternativeOf x) = (alternativeLeaves x).map fieldOf
  | .mk none ms => by
      rw [alternativeOf, fields_membersOf ms, alternativeLeaves, List.map_map]
      rfl
  | .mk (some name) ms => by
      have hfields : fields (alternativeOf (.mk (some name) ms)) =
          (fields (membersOf ms)).map (Field.under name) := List.append_nil _
      rw [hfields, fields_membersOf ms, alternativeLeaves, List.map_map, List.map_map]
      rfl

end

end Fields

section Overlaps

/-- The members that an alternative becomes in C++, each with what it holds. -/
def groupsOf (x : VariantMember) : List (List Field) :=
  (alternativeOf x).map memberFields

theorem alternativesOf_eq (xs : List VariantMember) :
    (alternativesOf xs).map memberFields = (xs.map groupsOf).flatten := by
  induction xs with
  | nil => rfl
  | cons x xs ih => rw [alternativesOf, List.map_append, ih, List.map_cons, List.flatten_cons]; rfl

theorem flatten_groupsOf (x : VariantMember) :
    (groupsOf x).flatten = (alternativeLeaves x).map fieldOf := by
  rw [groupsOf, ← fields_eq, fields_alternativeOf]

theorem groupsOf_none (ms : List StructMember) :
    groupsOf (.mk none ms) = (ms.map memberLeaves).map (List.map fieldOf) := by
  have hmembers : (membersOf ms).map memberFields =
      ms.map fun m => (memberLeaves m).map fieldOf := by
    induction ms with
    | nil => rfl
    | cons m ms ih => rw [membersOf, List.map_cons, List.map_cons, ih, memberFields_memberOf]
  rw [groupsOf, alternativeOf, hmembers, List.map_map]
  rfl

theorem crossPairs_groupsOf (xs : List VariantMember) :
    (crossPairs ((alternativesOf xs).map memberFields) : Multiset (Field × Field)) =
      ((crossPairs (xs.map alternativeLeaves)).map fieldPair : Multiset (Field × Field)) +
        (xs.flatMap fun x => crossPairs (groupsOf x) : List (Field × Field)) := by
  have hflatten : (xs.map groupsOf).map List.flatten = (xs.map alternativeLeaves).map
      (List.map fieldOf) := by
    rw [List.map_map, List.map_map]
    exact List.map_congr_left fun x _ => flatten_groupsOf x
  rw [alternativesOf_eq, Multiset.coe_eq_coe.mpr (crossPairs_flatten _), ← Multiset.coe_add,
    hflatten, crossPairs_map, List.flatMap_map]
  rfl

mutual

theorem overlaps_membersOf : ∀ ms : List StructMember,
    (overlaps (membersOf ms) : Multiset (Field × Field)) =
      ((shared ms ++ collapsed ms).map fieldPair : List (Field × Field))
  | [] => rfl
  | m :: ms => by
      have hm := memberOverlaps_memberOf m
      have hms := overlaps_membersOf ms
      rw [membersOf, overlaps, shared, collapsed]
      simp only [List.map_append, ← Multiset.coe_add] at hm hms ⊢
      rw [hm, hms]
      abel

theorem memberOverlaps_memberOf : ∀ m : StructMember,
    (memberOverlaps (memberOf m) : Multiset (Field × Field)) =
      ((memberShared m ++ memberCollapsed m).map fieldPair : List (Field × Field))
  | .simple _ _ => rfl
  | .range _ _ _ => rfl
  | .variant _ xs => by
      have hxs := overlaps_alternativesOf xs
      have hgroups := crossPairs_groupsOf xs
      rw [memberOf, memberOverlaps, memberShared, memberCollapsed]
      simp only [List.map_append, ← Multiset.coe_add] at hxs ⊢
      rw [hgroups, add_assoc, hxs]
      abel

theorem overlaps_alternativesOf : ∀ xs : List VariantMember,
    ((xs.flatMap fun x => crossPairs (groupsOf x)) : Multiset (Field × Field)) +
        (overlaps (alternativesOf xs) : Multiset (Field × Field)) =
      ((alternativesShared xs ++ alternativesCollapsed xs).map fieldPair : List (Field × Field))
  | [] => rfl
  | x :: xs => by
      have hx := overlaps_alternativeOf x
      have hxs := overlaps_alternativesOf xs
      rw [alternativesOf, overlaps_append, alternativesShared, alternativesCollapsed,
        List.flatMap_cons]
      simp only [List.map_append, ← Multiset.coe_add] at hx hxs ⊢
      rw [add_add_add_comm, hx, hxs]
      abel

theorem overlaps_alternativeOf : ∀ x : VariantMember,
    (crossPairs (groupsOf x) : Multiset (Field × Field)) +
        (overlaps (alternativeOf x) : Multiset (Field × Field)) =
      ((alternativeShared x ++ alternativeCollapsed x).map fieldPair : List (Field × Field))
  | .mk none ms => by
      have hms := overlaps_membersOf ms
      have hpair : fieldPair ∘ underPair none = fieldPair := rfl
      have hcross : crossPairs (groupsOf (.mk none ms)) =
          (crossPairs (ms.map memberLeaves)).map fieldPair := by
        rw [groupsOf_none, crossPairs_map]
        rfl
      rw [hcross, alternativeOf, alternativeShared, alternativeCollapsed]
      simp only [List.map_append, ← Multiset.coe_add, List.map_map, hpair] at hms ⊢
      rw [hms]
      abel
  | .mk (some name) ms => by
      have hms := overlaps_membersOf ms
      have hpair : fieldPair ∘ underPair (some name) =
          Prod.map (Field.under name) (Field.under name) ∘ fieldPair := rfl
      have hoverlaps : overlaps (alternativeOf (.mk (some name) ms)) =
          (overlaps (membersOf ms)).map (Prod.map (Field.under name) (Field.under name)) :=
        List.append_nil _
      have hcross : crossPairs (groupsOf (.mk (some name) ms)) = [] := crossPairs_singleton _
      rw [hcross, Multiset.coe_nil, zero_add, hoverlaps, alternativeShared, alternativeCollapsed,
        ← Multiset.map_coe, hms, Multiset.map_coe, ← List.map_append, List.map_map, List.map_map,
        hpair]

end

end Overlaps

section Collapsed

theorem oneHolds_iff (ms : List StructMember) :
    crossPairs (ms.map memberLeaves) = [] ↔ OneHolds ms := by
  rw [crossPairs_eq_nil_iff, OneHolds, List.pairwise_map]

mutual

theorem collapsed_eq_nil_iff : ∀ ms : List StructMember, collapsed ms = [] ↔ Unmixed ms
  | [] => by simp [collapsed, Unmixed]
  | m :: ms => by
      rw [collapsed, List.append_eq_nil_iff, memberCollapsed_eq_nil_iff m, collapsed_eq_nil_iff ms,
        Unmixed]

theorem memberCollapsed_eq_nil_iff : ∀ m : StructMember, memberCollapsed m = [] ↔ UnmixedMember m
  | .simple _ _ => by simp [memberCollapsed, UnmixedMember]
  | .range _ _ _ => by simp [memberCollapsed, UnmixedMember]
  | .variant _ xs => alternativesCollapsed_eq_nil_iff xs

theorem alternativesCollapsed_eq_nil_iff : ∀ xs : List VariantMember,
    alternativesCollapsed xs = [] ↔ UnmixedAlternatives xs
  | [] => by simp [alternativesCollapsed, UnmixedAlternatives]
  | x :: xs => by
      rw [alternativesCollapsed, List.append_eq_nil_iff, alternativeCollapsed_eq_nil_iff x,
        alternativesCollapsed_eq_nil_iff xs, UnmixedAlternatives]

theorem alternativeCollapsed_eq_nil_iff : ∀ x : VariantMember,
    alternativeCollapsed x = [] ↔ UnmixedAlternative x
  | .mk none ms => by
      rw [alternativeCollapsed, List.map_eq_nil_iff, List.append_eq_nil_iff, oneHolds_iff,
        collapsed_eq_nil_iff ms, UnmixedAlternative]
  | .mk (some _) ms => by
      rw [alternativeCollapsed, List.map_eq_nil_iff, collapsed_eq_nil_iff ms, UnmixedAlternative]

end

end Collapsed

theorem overlaps_perm_iff (ms : List StructMember) :
    (overlaps (membersOf ms)).Perm ((shared ms).map fieldPair) ↔ Unmixed ms := by
  have hoverlaps := Multiset.coe_eq_coe.mp (overlaps_membersOf ms)
  rw [← collapsed_eq_nil_iff]
  constructor
  · intro hperm
    have hlength := (hoverlaps.symm.trans hperm).length_eq
    rw [List.length_map, List.length_map, List.length_append] at hlength
    exact List.eq_nil_of_length_eq_zero (by omega)
  · intro hnil
    rwa [hnil, List.append_nil] at hoverlaps

theorem exists_readStruct (sub : Submodule) {type : StructType}
    (hreadable : StructReadable sub type) :
    ∃ text ms rest, linesText sub (generateStruct sub type) = .ok text ∧
      readHeader text = some (.struct (spelled type.name) ms :: rest) ∧
        retype (unqualified cloudabi) ms = membersOf type.members := by
  obtain ⟨text, htext, hread⟩ := (readsAsItems_generateStruct sub hreadable).readHeader
  exact ⟨text, _, _, htext, hread, retype_printedMembers sub type.members hreadable.members⟩

/-- Of the struct that is read from the printed text: each member is found under
its path, and members share storage just as in the ABI exactly if no unnamed
alternative has two members that hold something. -/
theorem printed_sharing_iff (sub : Submodule) {type : StructType}
    (hreadable : StructReadable sub type) :
    ∃ text ms rest, linesText sub (generateStruct sub type) = .ok text ∧
      readHeader text = some (.struct (spelled type.name) ms :: rest) ∧
        fields (retype (unqualified cloudabi) ms) = (leaves type.members).map fieldOf ∧
          ((overlaps (retype (unqualified cloudabi) ms)).Perm
              ((shared type.members).map fieldPair) ↔ Unmixed type.members) := by
  obtain ⟨text, ms, rest, htext, hread, hms⟩ := exists_readStruct sub hreadable
  refine ⟨text, ms, rest, htext, hread, ?_, ?_⟩
  · rw [hms, fields_membersOf]
  · rw [hms, overlaps_perm_iff]

theorem printed_sharing_iff_event :
    ∃ text ms rest,
      linesText cloudabiSubmodule (generateStruct cloudabiSubmodule event) = .ok text ∧
      readHeader text = some (.struct (spelled event.name) ms :: rest) ∧
        fields (retype (unqualified cloudabi) ms) = (leaves event.members).map fieldOf ∧
          ((overlaps (retype (unqualified cloudabi) ms)).Perm
              ((shared event.members).map fieldPair) ↔ Unmixed event.members) :=
  printed_sharing_iff cloudabiSubmodule
    ⟨by decide +kernel, by decide +kernel, by decide +kernel, by decide +kernel⟩

end CloudabiCpp.Generator.StorageSharing

import CloudabiCpp.Lib.Placement
import CloudabiCpp.Generator.Layout
import CloudabiCpp.Generator.StorageSharing

/-!
Whether the assertions on a printed struct can hold on a platform that lays C++
structs out naturally. The C struct may be laid out in any way that keeps apart
what lies side by side in the ABI.
-/

namespace CloudabiCpp.Generator.NaturalLayout

open CloudabiCpp.Lib.Declarations
open CloudabiCpp.Lib.Aggregates
open CloudabiCpp.Lib.ClassReader
open CloudabiCpp.Lib.Headers
open CloudabiCpp.Lib.Placement
open CloudabiCpp.Generator.Abi
open CloudabiCpp.Generator.CppNaming
open CloudabiCpp.Generator.StructDefs
open CloudabiCpp.Generator.OffsetAsserts
open CloudabiCpp.Generator.Layout
open CloudabiCpp.Generator.StructReading
open CloudabiCpp.Generator.StructsHeader
open CloudabiCpp.Generator.StorageSharing

mutual

/-- The pairs of members that lie side by side in an alternative. -/
def innerPairs : List StructMember → List (Leaf × Leaf)
  | [] => []
  | m :: ms => memberInnerPairs m ++ innerPairs ms
termination_by structural ms => ms

def memberInnerPairs : StructMember → List (Leaf × Leaf)
  | .simple _ _ => []
  | .range _ _ _ => []
  | .variant _ xs => alternativesInnerPairs xs
termination_by structural m => m

def alternativesInnerPairs : List VariantMember → List (Leaf × Leaf)
  | [] => []
  | x :: xs => alternativeInnerPairs x ++ alternativesInnerPairs xs
termination_by structural xs => xs

def alternativeInnerPairs : VariantMember → List (Leaf × Leaf)
  | .mk name ms => (crossPairs (ms.map memberLeaves) ++ innerPairs ms).map (underPair name)
termination_by structural x => x

end

/-- The pairs of members that lie side by side in the ABI: they belong to different
members of the struct or of one alternative. -/
def sideBySide (ms : List StructMember) : List (Leaf × Leaf) :=
  crossPairs (ms.map memberLeaves) ++ innerPairs ms

/-- What lies side by side in the ABI does so in C. -/
def KeepsApart (type : StructType) (c : CLayout) : Prop :=
  ∀ pair ∈ sideBySide type.members, c.offset (dotted pair.1.path) ≠ c.offset (dotted pair.2.path)

mutual

/-- No variant is without alternatives, and no alternative is without members. -/
def Filled : List StructMember → Prop
  | [] => True
  | m :: ms => FilledMember m ∧ Filled ms
termination_by structural ms => ms

def FilledMember : StructMember → Prop
  | .simple _ _ => True
  | .range _ _ _ => True
  | .variant _ xs => xs ≠ [] ∧ FilledAlternatives xs
termination_by structural m => m

def FilledAlternatives : List VariantMember → Prop
  | [] => True
  | x :: xs => FilledAlternative x ∧ FilledAlternatives xs
termination_by structural xs => xs

def FilledAlternative : VariantMember → Prop
  | .mk _ ms => ms ≠ [] ∧ Filled ms
termination_by structural x => x

end

variable (box : CType → Box)

def cppStruct (ms : List Member) : Laid Field := Laid.seq (layAll box ms)

def cppLayout (header : HeaderLayout) (range : RangeLayout) (ms : List Member) : CppLayout where
  whole := ⟨(cppStruct box ms).box.size, (cppStruct box ms).box.align⟩
  offset := (cppStruct box ms).offsetAt fun field => dotted field.path
  range := range
  header := header

section Founded

mutual

theorem founded_membersOf : ∀ ms : List StructMember, ms ≠ [] → Filled ms →
    ∃ y ys, layAll box (membersOf ms) = y :: ys ∧ Founded y
  | [], hms, _ => absurd rfl hms
  | m :: _, _, hfilled => ⟨_, _, rfl, founded_memberOf m hfilled.1⟩

theorem founded_memberOf : ∀ m : StructMember, FilledMember m → Founded (lay box (memberOf m))
  | .simple _ _, _ => rfl
  | .range _ _ _, _ => rfl
  | .variant _ xs, hfilled => by
      obtain ⟨y, ys, hlay, hy⟩ := founded_alternativesOf xs hfilled.1 hfilled.2
      rw [memberOf, lay, hlay]
      exact hy.overlay ys

theorem founded_alternativesOf : ∀ xs : List VariantMember, xs ≠ [] → FilledAlternatives xs →
    ∃ y ys, layAll box (alternativesOf xs) = y :: ys ∧ Founded y
  | [], hxs, _ => absurd rfl hxs
  | x :: xs, _, hfilled => by
      obtain ⟨y, ys, hlay, hy⟩ := founded_alternativeOf x hfilled.1
      exact ⟨y, ys ++ layAll box (alternativesOf xs),
        by rw [alternativesOf, layAll_append, hlay, List.cons_append], hy⟩

theorem founded_alternativeOf : ∀ x : VariantMember, FilledAlternative x →
    ∃ y ys, layAll box (alternativeOf x) = y :: ys ∧ Founded y
  | .mk none ms, hfilled => founded_membersOf ms hfilled.1 hfilled.2
  | .mk (some name) ms, hfilled => by
      obtain ⟨y, ys, hlay, hy⟩ := founded_membersOf ms hfilled.1 hfilled.2
      refine ⟨_, [], rfl, ?_⟩
      rw [lay, hlay]
      exact (hy.seq ys).map _

end

/-- The first thing in a member is where the member begins. -/
theorem exists_first {m : StructMember} (hfilled : FilledMember m) :
    ∃ leaf ∈ memberLeaves m, (fieldOf leaf, 0) ∈ (lay box (memberOf m)).offsets := by
  obtain ⟨⟨field, n⟩, hhead, rfl⟩ := Option.map_eq_some_iff.mp (founded_memberOf box m hfilled)
  have hmem := List.mem_of_mem_head? hhead
  have hname : field ∈ (lay box (memberOf m)).names := List.mem_map_of_mem (f := Prod.fst) hmem
  rw [names_lay, memberFields_memberOf] at hname
  obtain ⟨leaf, hleaf, rfl⟩ := List.mem_map.mp hname
  exact ⟨leaf, hleaf, hmem⟩

end Founded

section Apart

theorem names_layAll_membersOf (ms : List StructMember) :
    (layAll box (membersOf ms)).map Laid.names = (ms.map memberLeaves).map (List.map fieldOf) := by
  induction ms with
  | nil => rfl
  | cons m ms ih =>
      rw [membersOf, layAll, List.map_cons, ih, names_lay, memberFields_memberOf, List.map_cons,
        List.map_cons]

/-- Pairs that are apart inside the members of a struct, or in different ones. -/
theorem placedAt_sideBySide {ms : List StructMember}
    (hinner : ∀ pair ∈ innerPairs ms, ∃ x ∈ layAll box (membersOf ms),
      PlacedAt (· ≠ ·) x.offsets (fieldPair pair)) :
    ∀ pair ∈ sideBySide ms,
      PlacedAt (· ≠ ·) (cppStruct box (membersOf ms)).offsets (fieldPair pair) := by
  have hshift : ∀ d n m : Nat, n ≠ m → n + d ≠ m + d := by omega
  refine List.forall_mem_append.mpr ⟨fun pair hpair => ?_, fun pair hpair => ?_⟩
  · apply placedAt_ne (inside_layAll box (membersOf ms))
    rw [names_layAll_membersOf, crossPairs_map]
    exact List.mem_map_of_mem hpair
  · obtain ⟨x, hx, hplaced⟩ := hinner pair hpair
    exact hplaced.seq hshift hx

mutual

/-- Without unnamed alternatives of several members all that lies side by side in
the ABI is apart in C++. -/
theorem apart_members : ∀ ms : List StructMember, Unmixed ms → ∀ pair ∈ innerPairs ms,
    ∃ x ∈ layAll box (membersOf ms), PlacedAt (· ≠ ·) x.offsets (fieldPair pair)
  | [], _, _, hpair => absurd hpair List.not_mem_nil
  | m :: ms, hunmixed, pair, hpair => by
      rcases List.mem_append.mp hpair with hfirst | hrest
      · exact ⟨_, List.mem_cons_self, apart_member m hunmixed.1 pair hfirst⟩
      · obtain ⟨x, hx, hplaced⟩ := apart_members ms hunmixed.2 pair hrest
        exact ⟨x, List.mem_cons_of_mem _ hx, hplaced⟩

theorem apart_member : ∀ m : StructMember, UnmixedMember m → ∀ pair ∈ memberInnerPairs m,
    PlacedAt (· ≠ ·) (lay box (memberOf m)).offsets (fieldPair pair)
  | .simple _ _, _, _, hpair => absurd hpair List.not_mem_nil
  | .range _ _ _, _, _, hpair => absurd hpair List.not_mem_nil
  | .variant _ xs, hunmixed, pair, hpair => apart_alternatives xs hunmixed pair hpair

theorem apart_alternatives : ∀ xs : List VariantMember, UnmixedAlternatives xs →
    ∀ pair ∈ alternativesInnerPairs xs,
      PlacedAt (· ≠ ·) ((layAll box (alternativesOf xs)).flatMap Laid.offsets) (fieldPair pair)
  | [], _, _, hpair => absurd hpair List.not_mem_nil
  | x :: xs, hunmixed, pair, hpair => by
      rw [alternativesOf, layAll_append, List.flatMap_append]
      rcases List.mem_append.mp hpair with hfirst | hrest
      · exact (apart_alternative x hunmixed.1 pair hfirst).mono (List.subset_append_left _ _)
      · exact (apart_alternatives xs hunmixed.2 pair hrest).mono (List.subset_append_right _ _)

theorem apart_alternative : ∀ x : VariantMember, UnmixedAlternative x →
    ∀ pair ∈ alternativeInnerPairs x,
      PlacedAt (· ≠ ·) ((layAll box (alternativeOf x)).flatMap Laid.offsets) (fieldPair pair)
  | .mk none ms, hunmixed, pair, hpair => by
      rw [alternativeInnerPairs, (oneHolds_iff ms).mpr hunmixed.1, List.nil_append] at hpair
      obtain ⟨inner, hinner, rfl⟩ := List.mem_map.mp hpair
      obtain ⟨x, hx, hplaced⟩ := apart_members ms hunmixed.2 inner hinner
      exact hplaced.flatMap hx
  | .mk (some name) ms, hunmixed, pair, hpair => by
      obtain ⟨inner, hinner, rfl⟩ := List.mem_map.mp hpair
      have hplaced := placedAt_sideBySide box (apart_members ms hunmixed) inner hinner
      exact (hplaced.map (Field.under name)).flatMap List.mem_cons_self

end

end Apart

section Together

mutual

/-- Two members of one unnamed alternative begin in the same place. -/
theorem together_members : ∀ ms : List StructMember, Filled ms → ¬ Unmixed ms →
    ∃ pair ∈ innerPairs ms, ∃ x ∈ layAll box (membersOf ms),
      PlacedAt (· = ·) x.offsets (fieldPair pair)
  | [], _, hmixed => absurd trivial hmixed
  | m :: ms, hfilled, hmixed => by
      rcases not_and_or.mp hmixed with hfirst | hrest
      · obtain ⟨pair, hpair, hplaced⟩ := together_member m hfilled.1 hfirst
        exact ⟨pair, List.mem_append_left _ hpair, _, List.mem_cons_self, hplaced⟩
      · obtain ⟨pair, hpair, x, hx, hplaced⟩ := together_members ms hfilled.2 hrest
        exact ⟨pair, List.mem_append_right _ hpair, x, List.mem_cons_of_mem _ hx, hplaced⟩

theorem together_member : ∀ m : StructMember, FilledMember m → ¬ UnmixedMember m →
    ∃ pair ∈ memberInnerPairs m, PlacedAt (· = ·) (lay box (memberOf m)).offsets (fieldPair pair)
  | .simple _ _, _, hmixed => absurd trivial hmixed
  | .range _ _ _, _, hmixed => absurd trivial hmixed
  | .variant _ xs, hfilled, hmixed => together_alternatives xs hfilled.2 hmixed

theorem together_alternatives : ∀ xs : List VariantMember, FilledAlternatives xs →
    ¬ UnmixedAlternatives xs → ∃ pair ∈ alternativesInnerPairs xs,
      PlacedAt (· = ·) ((layAll box (alternativesOf xs)).flatMap Laid.offsets) (fieldPair pair)
  | [], _, hmixed => absurd trivial hmixed
  | x :: xs, hfilled, hmixed => by
      rw [alternativesOf, layAll_append, List.flatMap_append]
      rcases not_and_or.mp hmixed with hfirst | hrest
      · obtain ⟨pair, hpair, hplaced⟩ := together_alternative x hfilled.1 hfirst
        exact ⟨pair, List.mem_append_left _ hpair, hplaced.mono (List.subset_append_left _ _)⟩
      · obtain ⟨pair, hpair, hplaced⟩ := together_alternatives xs hfilled.2 hrest
        exact ⟨pair, List.mem_append_right _ hpair, hplaced.mono (List.subset_append_right _ _)⟩

theorem together_alternative : ∀ x : VariantMember, FilledAlternative x → ¬ UnmixedAlternative x →
    ∃ pair ∈ alternativeInnerPairs x,
      PlacedAt (· = ·) ((layAll box (alternativeOf x)).flatMap Laid.offsets) (fieldPair pair)
  | .mk none ms, hfilled, hmixed => by
      rcases not_and_or.mp hmixed with hseveral | hinside
      · match ms, hfilled, hseveral with
        | [], hfilled, _ => exact absurd rfl hfilled.1
        | [m], _, hseveral => exact absurd (List.pairwise_singleton _ _) hseveral
        | m :: m' :: ms, ⟨_, hm, hm', _⟩, _ =>
            obtain ⟨leaf, hleaf, hplaced⟩ := exists_first box hm
            obtain ⟨leaf', hleaf', hplaced'⟩ := exists_first box hm'
            refine ⟨underPair none (leaf, leaf'), List.mem_map_of_mem ?_, 0, 0, ?_, ?_, rfl⟩
            · apply List.mem_append_left
              apply List.mem_append_left
              exact List.mem_product.mpr ⟨hleaf, List.mem_append_left _ hleaf'⟩
            · exact List.mem_append_left _ hplaced
            · exact List.mem_append_right _ (List.mem_append_left _ hplaced')
      · obtain ⟨pair, hpair, x, hx, hplaced⟩ := together_members ms hfilled.2 hinside
        exact ⟨underPair none pair, List.mem_map_of_mem (List.mem_append_right _ hpair),
          hplaced.flatMap hx⟩
  | .mk (some name) ms, hfilled, hmixed => by
      have hshift : ∀ d n m : Nat, n = m → n + d = m + d := by omega
      obtain ⟨pair, hpair, x, hx, hplaced⟩ := together_members ms hfilled.2 hmixed
      exact ⟨underPair (some name) pair, List.mem_map_of_mem (List.mem_append_right _ hpair),
        ((hplaced.seq hshift hx).map (Field.under name)).flatMap List.mem_cons_self⟩

end

end Together

section Assertions

variable {type : StructType}

theorem names_cppStruct (ms : List StructMember) :
    (cppStruct box (membersOf ms)).names = (leaves ms).map fieldOf := by
  rw [cppStruct, Laid.names_seq, names_layAll, fields_membersOf]

theorem cppLayout_offset
    (hdistinct : ((leaves type.members).map fun leaf => dotted leaf.path).Nodup)
    (header : HeaderLayout) (range : RangeLayout) {leaf : Leaf} {n : Nat}
    (hplaced : (fieldOf leaf, n) ∈ (cppStruct box (membersOf type.members)).offsets) :
    (cppLayout box header range (membersOf type.members)).offset (dotted leaf.path) = n := by
  have hnodup : ((cppStruct box (membersOf type.members)).names.map
      fun field => dotted field.path).Nodup := by
    rw [names_cppStruct, List.map_map]
    exact hdistinct
  exact Laid.offsetAt_of_mem hnodup hplaced

theorem compatible_offset {c : CLayout} {cpp : CppLayout} (hcompatible : Compatible type c cpp)
    (hnamed : ∀ leaf ∈ leaves type.members, leaf.NamedOnlyInnermost) {leaf : Leaf} {n : Nat}
    (hplaced : (fieldOf leaf, n) ∈ (cppStruct box (membersOf type.members)).offsets) :
    cpp.offset (dotted leaf.path) = c.offset (dotted leaf.path) := by
  obtain ⟨-, -, hoffset⟩ := (asserts_hold_iff type c cpp).mp hcompatible.asserts
  have hname : fieldOf leaf ∈ (cppStruct box (membersOf type.members)).names :=
    List.mem_map_of_mem (f := Prod.fst) hplaced
  rw [names_cppStruct] at hname
  obtain ⟨leaf', hleaf', heq⟩ := List.mem_map.mp hname
  obtain ⟨hpath, -⟩ := Field.mk.inj heq
  rw [← hpath, dotted_path_of_named (hnamed leaf' hleaf')]
  exact hoffset leaf' hleaf'

theorem exists_compatible_iff (hfilled : Filled type.members)
    (hdistinct : ((leaves type.members).map fun leaf => dotted leaf.path).Nodup)
    (hnamed : ∀ leaf ∈ leaves type.members, leaf.NamedOnlyInnermost) (header : HeaderLayout)
    (range : RangeLayout) :
    (∃ c, KeepsApart type c ∧
        Compatible type c (cppLayout box header range (membersOf type.members))) ↔
      Unmixed type.members := by
  have hoffset := @cppLayout_offset box type hdistinct header range
  constructor
  · rintro ⟨c, hapart, hcompatible⟩
    by_contra hmixed
    obtain ⟨pair, hpair, x, hx, hinner⟩ := together_members box type.members hfilled hmixed
    obtain ⟨n, m, hn, hm, rfl⟩ := hinner.seq (by omega) hx
    refine hapart pair (List.mem_append_right _ hpair) ?_
    calc
      c.offset (dotted pair.1.path) = n :=
        (compatible_offset box hcompatible hnamed hn).symm.trans (hoffset hn)
      _ = c.offset (dotted pair.2.path) :=
        (hoffset hm).symm.trans (compatible_offset box hcompatible hnamed hm)
  · intro hunmixed
    let cpp := cppLayout box header range (membersOf type.members)
    refine ⟨⟨cpp.whole, cpp.offset, header⟩, fun pair hpair => ?_, ?_, rfl⟩
    · obtain ⟨n, m, hn, hm, hne⟩ :=
        placedAt_sideBySide box (apart_members box type.members hunmixed) pair hpair
      exact fun heq => hne ((hoffset hn).symm.trans (heq.trans (hoffset hm)))
    · exact (asserts_hold_iff type _ _).mpr ⟨rfl, rfl, fun _ _ => rfl⟩

end Assertions

/-- On a platform that lays structs out naturally, the assertions on a printed struct
let some C struct through that keeps its members apart, exactly if no unnamed
alternative has two members: these begin in the same place in C++. -/
theorem printed_assertions_hold_iff (sub : Submodule) (header : HeaderLayout)
    (range : RangeLayout) {type : StructType} (hreadable : StructReadable sub type)
    (hfilled : Filled type.members)
    (hdistinct : ((leaves type.members).map fun leaf => dotted leaf.path).Nodup)
    (hnamed : ∀ leaf ∈ leaves type.members, leaf.NamedOnlyInnermost) :
    ∃ text ms rest, linesText sub (generateStruct sub type) = .ok text ∧
      readHeader text = some (.struct (spelled type.name) ms :: rest) ∧
        ((∃ c, KeepsApart type c ∧
            Compatible type c (cppLayout box header range (retype (unqualified cloudabi) ms))) ↔
          Unmixed type.members) := by
  obtain ⟨text, ms, rest, htext, hread, hms⟩ := exists_readStruct sub hreadable
  refine ⟨text, ms, rest, htext, hread, ?_⟩
  rw [hms]
  exact exists_compatible_iff box hfilled hdistinct hnamed header range

/-- The types of `event` on a 64-bit platform. -/
def box64 : CType → Box
  | .named _ path =>
      if path = [lit "eventtype"] ∨ path = [lit "signal"] then .scalar 0
      else if path = [lit "error"] ∨ path = [lit "eventrwflags"] then .scalar 1
      else if path = [lit "fd"] ∨ path = [lit "exitcode"] then .scalar 2
      else .scalar 3
  | _ => .scalar 3

def header64 : HeaderLayout := ⟨⟨4, 4⟩, ⟨16, 8⟩, ⟨16, 8⟩⟩

example :
    ((cppStruct box64 (membersOf event.members)).offsets.map fun placed =>
        (placed.1.path, placed.2)).take 7 =
      [([lit "userdata"], 0), ([lit "error"], 8), ([lit "type"], 10),
        ([lit "clock", lit "identifier"], 16), ([lit "condvar", lit "condvar"], 16),
        ([lit "fd_readwrite", lit "nbytes"], 16), ([lit "fd_readwrite", lit "fd"], 24)] := by
  decide +kernel

theorem printed_assertions_hold_iff_event :
    ∃ text ms rest,
      linesText cloudabiSubmodule (generateStruct cloudabiSubmodule event) = .ok text ∧
      readHeader text = some (.struct (spelled event.name) ms :: rest) ∧
        ((∃ c, KeepsApart event c ∧
            Compatible event c (cppLayout box64 header64 ⟨.begin, .length⟩
              (retype (unqualified cloudabi) ms))) ↔
          Unmixed event.members) := by
  refine printed_assertions_hold_iff box64 cloudabiSubmodule header64 ⟨.begin, .length⟩
    ⟨by decide +kernel, by decide +kernel, by decide +kernel, by decide +kernel⟩ ?_ ?_ ?_
  · simp [event, Filled, FilledMember, FilledAlternatives, FilledAlternative]
  · decide +kernel
  · simp [event, leaves, memberLeaves, alternativesLeaves, alternativeLeaves, Leaf.under,
      Leaf.NamedOnlyInnermost]

end CloudabiCpp.Generator.NaturalLayout

import Mathlib.Data.List.Perm.Subperm
import CloudabiCpp.Generator.OffsetAsserts

/-!
Whether the printed assertions justify casting between a C++ struct and its C
counterpart. A range is a pointer field and a length field in C and one member
in C++, whose inner layout no assertion looks at.
-/

namespace CloudabiCpp.Generator.Layout

open CloudabiCpp.Generator.Abi
open CloudabiCpp.Generator.StructDefs
open CloudabiCpp.Generator.OffsetAsserts

structure SizeAlign where
  size : Nat
  align : Nat
  deriving DecidableEq

structure Extent where
  offset : Nat
  size : Nat
  deriving DecidableEq

/-- The classes that have assertions of their own. -/
structure HeaderLayout where
  fd : SizeAlign
  iovec : SizeAlign
  ciovec : SizeAlign
  deriving DecidableEq

structure CLayout where
  whole : SizeAlign
  offset : Text → Nat
  header : HeaderLayout

/-- What a word of an `mstd::range` can hold. -/
inductive RangeWord where
  | begin | end_ | length
  deriving DecidableEq

structure RangeLayout where
  first : RangeWord
  second : RangeWord

structure CppLayout where
  whole : SizeAlign
  offset : Text → Nat
  range : RangeLayout
  header : HeaderLayout

/-- The assertion holds of the two layouts; other lines assert nothing. -/
def Holds (c : CLayout) (cpp : CppLayout) : Line → Prop
  | .assertSizeof _ => cpp.whole.size = c.whole.size
  | .assertAlignof _ => cpp.whole.align = c.whole.align
  | .assertOffsetof _ memname cmemname => cpp.offset memname = c.offset cmemname
  | _ => True

instance (c : CLayout) (cpp : CppLayout) (line : Line) : Decidable (Holds c cpp line) := by
  unfold Holds
  split <;> infer_instance

/-- The layouts satisfy what the headers assert about a struct type, `fd`, `iovec`
and `ciovec`. -/
structure Compatible (type : StructType) (c : CLayout) (cpp : CppLayout) : Prop where
  asserts : ∀ line ∈ generateStructAsserts type, Holds c cpp line
  header : cpp.header = c.header

def CppLayout.wordOf (cpp : CppLayout) (word offset : Nat) (w : RangeWord) : Option Extent :=
  if cpp.range.first = w then some ⟨offset, word⟩
  else if cpp.range.second = w then some ⟨offset + word, word⟩
  else none

/-- Every C field that stands for the member has the same bytes as the C++
component; `sizeof` gives the sizes of scalar types and `word` that of a pointer
and of `size_t`. -/
def HandsOver (sizeof : AbiType → Nat) (word : Nat) (c : CLayout) (cpp : CppLayout)
    (leaf : Leaf) : Prop :=
  let path := dotted leaf.path
  match leaf.content with
  | .simple type =>
      (⟨c.offset path, sizeof type⟩ : Extent) = ⟨cpp.offset path, sizeof type⟩
  | .range _ _ =>
      some ⟨c.offset path, word⟩ = cpp.wordOf word (cpp.offset path) .begin ∧
        some ⟨c.offset (path ++ lit "_len"), word⟩ =
          cpp.wordOf word (cpp.offset path) .length

def IsRange (leaf : Leaf) : Prop :=
  ∃ target const, leaf.content = .range target const

theorem asserts_hold_iff (type : StructType) (c : CLayout) (cpp : CppLayout) :
    (∀ line ∈ generateStructAsserts type, Holds c cpp line) ↔
      cpp.whole.size = c.whole.size ∧ cpp.whole.align = c.whole.align ∧
        ∀ leaf ∈ leaves type.members,
          cpp.offset (leaf.assertedPath []) = c.offset (leaf.assertedPath []) := by
  rw [generateStructAsserts_eq]
  simp [Holds, Leaf.assertLine]

/-- A C++ layout with the offsets of the C layout, ranges being a pair of
pointers. -/
def CLayout.withPointerPairs (c : CLayout) : CppLayout :=
  ⟨c.whole, c.offset, ⟨.begin, .end_⟩, c.header⟩

theorem withPointerPairs_compatible (type : StructType) (c : CLayout) :
    Compatible type c c.withPointerPairs where
  asserts := (asserts_hold_iff type c _).mpr ⟨rfl, rfl, fun _ _ => rfl⟩
  header := rfl

theorem withPointerPairs_not_handsOver (sizeof : AbiType → Nat) (word : Nat) (c : CLayout)
    {leaf : Leaf} (hrange : IsRange leaf) :
    ¬ HandsOver sizeof word c c.withPointerPairs leaf := by
  obtain ⟨target, const, hcontent⟩ := hrange
  rintro hhands
  simp [HandsOver, hcontent, CppLayout.wordOf, CLayout.withPointerPairs] at hhands

def CppLayout.move (cpp : CppLayout) (path : Text) : CppLayout :=
  { cpp with offset := Function.update cpp.offset path (cpp.offset path + 1) }

theorem move_compatible {type : StructType} {c : CLayout} {cpp : CppLayout}
    (hcompatible : Compatible type c cpp) {path : Text}
    (hpath : path ∉ (leaves type.members).map (Leaf.assertedPath [])) :
    Compatible type c (cpp.move path) where
  asserts := by
    rw [asserts_hold_iff]
    obtain ⟨hsize, halign, hoffset⟩ := (asserts_hold_iff type c cpp).mp hcompatible.asserts
    refine ⟨hsize, halign, fun leaf hleaf => ?_⟩
    have hne : leaf.assertedPath [] ≠ path := by
      rintro rfl
      exact hpath (List.mem_map_of_mem hleaf)
    rw [← hoffset leaf hleaf]
    exact Function.update_of_ne hne _ _
  header := hcompatible.header

theorem move_not_handsOver {sizeof : AbiType → Nat} {word : Nat} {c : CLayout} {leaf : Leaf}
    (hrange : ¬ IsRange leaf) :
    ¬ HandsOver sizeof word c (c.withPointerPairs.move (dotted leaf.path)) leaf := by
  intro hhands
  cases hcontent : leaf.content with
  | range target const => exact hrange ⟨target, const, hcontent⟩
  | simple type =>
      simp [HandsOver, hcontent, CppLayout.move, CLayout.withPointerPairs] at hhands

theorem handsOver_of_compatible {sizeof : AbiType → Nat} {word : Nat} {type : StructType}
    {c : CLayout} {cpp : CppLayout} (hcompatible : Compatible type c cpp) {leaf : Leaf}
    (hleaf : leaf ∈ leaves type.members) (hnamed : leaf.NamedOnlyInnermost)
    (hrange : ¬ IsRange leaf) : HandsOver sizeof word c cpp leaf := by
  obtain ⟨-, -, hoffset⟩ := (asserts_hold_iff type c cpp).mp hcompatible.asserts
  cases hcontent : leaf.content with
  | range target const => exact absurd ⟨target, const, hcontent⟩ hrange
  | simple type =>
      simp [HandsOver, hcontent, dotted_path_of_named hnamed, hoffset leaf hleaf]

theorem namedOnlyInnermost_of_subset {ls : List Leaf}
    (hdistinct : (ls.map fun leaf => dotted leaf.path).Nodup)
    (hsubset : (ls.map fun leaf => dotted leaf.path) ⊆ ls.map (Leaf.assertedPath [])) :
    ∀ leaf ∈ ls, leaf.NamedOnlyInnermost := by
  have hsubperm := hdistinct.subperm hsubset
  exact namedOnlyInnermost_of_perm (hsubperm.perm_of_length_le (by simp)).symm

/-- Whatever the C layout, every compatible C++ layout hands over all fields
exactly when the struct has no range and its assertions name the right paths. -/
theorem compatible_handsOver_iff (sizeof : AbiType → Nat) (word : Nat) (type : StructType)
    (c : CLayout)
    (hdistinct : ((leaves type.members).map fun leaf => dotted leaf.path).Nodup) :
    (∀ cpp, Compatible type c cpp →
        ∀ leaf ∈ leaves type.members, HandsOver sizeof word c cpp leaf) ↔
      ∀ leaf ∈ leaves type.members, ¬ IsRange leaf ∧ leaf.NamedOnlyInnermost := by
  constructor
  · intro hhands
    have hrange : ∀ leaf ∈ leaves type.members, ¬ IsRange leaf := by
      intro leaf hleaf hrange
      exact withPointerPairs_not_handsOver sizeof word c hrange
        (hhands _ (withPointerPairs_compatible type c) leaf hleaf)
    have hsubset : ((leaves type.members).map fun leaf => dotted leaf.path) ⊆
        (leaves type.members).map (Leaf.assertedPath []) := by
      intro path hpath
      obtain ⟨leaf, hleaf, rfl⟩ := List.mem_map.mp hpath
      by_contra hmissing
      have hcompatible := move_compatible (withPointerPairs_compatible type c) hmissing
      exact move_not_handsOver (hrange leaf hleaf) (hhands _ hcompatible leaf hleaf)
    have hnamed := namedOnlyInnermost_of_subset hdistinct hsubset
    exact fun leaf hleaf => ⟨hrange leaf hleaf, hnamed leaf hleaf⟩
  · intro hleaves cpp hcompatible leaf hleaf
    obtain ⟨hrange, hnamed⟩ := hleaves leaf hleaf
    exact handsOver_of_compatible hcompatible hleaf hnamed hrange

def recvIn : StructType where
  name := lit "recv_in"
  members :=
    [.range (lit "ri_data") (.user (lit "iovec")) true,
      .range (lit "ri_fds") (.user (lit "fd")) false,
      .simple (lit "ri_flags") (.user (lit "msgflags"))]

/-- Its C layout on a 64-bit platform. -/
def cRecvIn : CLayout where
  whole := ⟨40, 8⟩
  offset := fun path =>
    if path = lit "ri_data" then 0
    else if path = lit "ri_data_len" then 8
    else if path = lit "ri_fds" then 16
    else if path = lit "ri_fds_len" then 24
    else 32
  header := ⟨⟨4, 4⟩, ⟨16, 8⟩, ⟨16, 8⟩⟩

theorem compatible_handsOver_iff_recvIn :
    (∀ cpp, Compatible recvIn cRecvIn cpp →
        ∀ leaf ∈ leaves recvIn.members, HandsOver (fun _ => 2) 8 cRecvIn cpp leaf) ↔
      ∀ leaf ∈ leaves recvIn.members, ¬ IsRange leaf ∧ leaf.NamedOnlyInnermost :=
  compatible_handsOver_iff _ 8 recvIn cRecvIn (by decide +kernel)

/-- With ranges that are pairs of pointers all assertions on `recv_in` hold, and
the length of `ri_data` has no counterpart. -/
theorem recvIn_not_handsOver :
    Compatible recvIn cRecvIn cRecvIn.withPointerPairs ∧
      ¬ ∀ leaf ∈ leaves recvIn.members,
        HandsOver (fun _ => 2) 8 cRecvIn cRecvIn.withPointerPairs leaf := by
  refine ⟨withPointerPairs_compatible recvIn cRecvIn, fun hhands => ?_⟩
  refine withPointerPairs_not_handsOver (fun _ => 2) 8 cRecvIn ?_ (hhands _ List.mem_cons_self)
  exact ⟨.user (lit "iovec"), true, rfl⟩

end CloudabiCpp.Generator.Layout

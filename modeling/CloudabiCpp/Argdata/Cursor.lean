import Mathlib.Data.Fintype.Basic
import Mathlib.Logic.Function.Iterate
import CloudabiCpp.Lib.Blocks

/-!
The part of the argdata library that the iterators of `argdata.hpp` call. Its
code is not in the repository, so it is a parameter: what one call of
`argdata_map_next` or `argdata_seq_next` does to the bytes of a cursor, and
which argdata is found where. `ι` names the output pointers of the call.
Addresses are natural numbers, `0` is the null pointer.
-/

namespace CloudabiCpp.Argdata.Cursor

open CloudabiCpp.Lib.Blocks

/-- What an output pointer is set to: argdata outside every cursor, or the
argdata kept at a byte offset of the cursor object itself. -/
inductive Ref where
  | outside (p : Nat)
  | inside (off : Nat)
  deriving DecidableEq

namespace Ref

def pointer (base : Nat) : Ref → Nat
  | .outside p => p
  | .inside off => base + off

/-- Entries are not null, and embedded ones begin inside the cursor. -/
def Valid (size : Nat) : Ref → Prop
  | .outside p => p ≠ 0
  | .inside off => off < size

def PastFirstByte : Ref → Prop
  | .outside _ => True
  | .inside off => 0 < off

/-- A cursor object placed at `base` does not cover the entry. -/
def ClearOf (size : Nat) (base : Nat) : Ref → Prop
  | .outside p => ¬ Inside size base p
  | .inside _ => True

def isOutside : Ref → Bool
  | .outside _ => true
  | .inside _ => false

instance (size : Nat) : (ref : Ref) → Decidable (ref.Valid size)
  | .outside p => inferInstanceAs (Decidable (p ≠ 0))
  | .inside off => inferInstanceAs (Decidable (off < size))

instance : (ref : Ref) → Decidable ref.PastFirstByte
  | .outside _ => isTrue trivial
  | .inside off => inferInstanceAs (Decidable (0 < off))

instance (size : Nat) (base : Nat) : (ref : Ref) → Decidable (ref.ClearOf size base)
  | .outside p => inferInstanceAs (Decidable (¬ Inside size base p))
  | .inside _ => isTrue trivial

theorem pointer_ne_null {size : Nat} {base : Nat} {ref : Ref}
    (hvalid : ref.Valid size) (hbase : base ≠ 0) : ref.pointer base ≠ 0 := by
  cases ref with
  | outside p => exact hvalid
  | inside off =>
      simp only [pointer]
      omega

theorem pointer_of_isOutside {ref : Ref} (houtside : ref.isOutside = true) (a b : Nat) :
    ref.pointer a = ref.pointer b := by
  cases ref with
  | outside p => rfl
  | inside off => cases houtside

theorem pastFirstByte_of_isOutside {ref : Ref} (houtside : ref.isOutside = true) :
    ref.PastFirstByte := by
  cases ref with
  | outside p => trivial
  | inside off => cases houtside

end Ref

/-- The outcome of one `next` call: its return value, the new bytes of the
cursor, and the output pointers it wrote. -/
structure NextResult (ι C : Type) where
  more : Bool
  cursor : C
  out : ι → Option Ref

/-- The library as the wrapper sees it. `next` and `inner` take the bytes of a
cursor and not its address: a bytewise copy is a cursor at the same position. -/
structure Library (ι C V : Type) where
  size : Nat
  size_pos : 0 < size
  next : C → NextResult ι C
  inner : C → Nat → V
  outer : Nat → V

variable {ι C V : Type}

namespace Library

def drawn (lib : Library ι C V) (start : C) (k : Nat) : C :=
  (fun c => (lib.next c).cursor)^[k] start

theorem drawn_succ (lib : Library ι C V) (start : C) (k : Nat) :
    lib.drawn start (k + 1) = (lib.next (lib.drawn start k)).cursor :=
  Function.iterate_succ_apply' _ _ _

/-- The argdata an entry stands for, in a cursor that has just yielded it. -/
def content (lib : Library ι C V) (c : C) : Ref → V
  | .outside p => lib.outer p
  | .inside off => lib.inner c off

end Library

/-- A map or a sequence: the cursor stored in `start_it_`, which yields the
listed entries and then returns false forever. -/
structure Container (lib : Library ι C V) where
  start : C
  entries : List (ι → Ref)
  yields : ∀ k (hk : k < entries.length),
    (lib.next (lib.drawn start k)).more = true ∧
      ∀ i, (lib.next (lib.drawn start k)).out i = some (entries[k] i)
  stops : ∀ k, entries.length ≤ k → (lib.next (lib.drawn start k)).more = false
  valid : ∀ e ∈ entries, ∀ i, (e i).Valid lib.size

namespace Container

variable {lib : Library ι C V}

def contents (K : Container lib) : List (ι → V) :=
  K.entries.mapIdx fun k e i => lib.content (lib.drawn K.start (k + 1)) (e i)

theorem contents_getElem? (K : Container lib) (k : Nat) :
    K.contents[k]? = K.entries[k]?.map fun e i =>
      lib.content (lib.drawn K.start (k + 1)) (e i) := by
  simp [contents]

/-- The pointers of entry `k` as an iterator whose cursor is at `base` holds
them; null past the end. -/
def pointer (K : Container lib) (base : Nat) (k : Nat) (i : ι) : Nat :=
  match K.entries[k]? with
  | some e => (e i).pointer base
  | none => 0

theorem pointer_of_entry {K : Container lib} {base : Nat} {k : Nat} {e : ι → Ref}
    (hentry : K.entries[k]? = some e) (i : ι) :
    K.pointer base k i = (e i).pointer base := by
  simp [pointer, hentry]

theorem pointer_of_length_le {K : Container lib} {base : Nat} {k : Nat}
    (hlength : K.entries.length ≤ k) (i : ι) : K.pointer base k i = 0 := by
  simp [pointer, List.getElem?_eq_none hlength]

theorem valid_of_entry {K : Container lib} {k : Nat} {e : ι → Ref}
    (hentry : K.entries[k]? = some e) (i : ι) : (e i).Valid lib.size :=
  K.valid e (List.mem_of_getElem? hentry) i

theorem pointer_eq_null_iff [Nonempty ι] (K : Container lib) {base : Nat} (hbase : base ≠ 0)
    (k : Nat) :
    (∀ i, K.pointer base k i = 0) ↔ K.entries.length ≤ k := by
  constructor
  · intro hnull
    by_contra hlt
    have hentry := List.getElem?_eq_getElem (Nat.lt_of_not_le hlt)
    have hi := hnull (Classical.arbitrary ι)
    rw [pointer_of_entry hentry] at hi
    exact Ref.pointer_ne_null (K.valid_of_entry hentry _) hbase hi
  · exact fun hlength i => pointer_of_length_le hlength i

/-- A cursor object at `base` covers none of the entries that lie outside. -/
def ClearOf (K : Container lib) (base : Nat) : Prop :=
  ∀ e ∈ K.entries, ∀ i, (e i).ClearOf lib.size base

instance [Fintype ι] (K : Container lib) (base : Nat) : Decidable (K.ClearOf base) :=
  inferInstanceAs (Decidable (∀ e ∈ K.entries, ∀ i, (e i).ClearOf lib.size base))

/-- There is an entry at the address that is not embedded. -/
def HasOutside (K : Container lib) (p : Nat) : Prop :=
  ∃ e ∈ K.entries, ∃ i, e i = .outside p

theorem HasOutside.not_inside {K : Container lib} {base p : Nat} (houtside : K.HasOutside p)
    (hclear : K.ClearOf base) : ¬ Inside lib.size base p := by
  obtain ⟨e, he, i, hi⟩ := houtside
  have hentry := hclear e he i
  rwa [hi] at hentry

/-- No embedded entry begins at the first byte of the cursor. -/
def PastFirstByte (K : Container lib) : Prop :=
  ∀ e ∈ K.entries, ∀ i, (e i).PastFirstByte

instance [Fintype ι] (K : Container lib) : Decidable K.PastFirstByte :=
  inferInstanceAs (Decidable (∀ e ∈ K.entries, ∀ i, (e i).PastFirstByte))

end Container

/-- A library whose cursor is the list of entries still to come. -/
def listLibrary (ι : Type) (size : Nat) (hsize : 0 < size)
    (inner : List (ι → Ref) → Nat → V) (outer : Nat → V) :
    Library ι (List (ι → Ref)) V where
  size := size
  size_pos := hsize
  next := fun c =>
    match c with
    | [] => { more := false, cursor := [], out := fun _ => none }
    | e :: rest => { more := true, cursor := rest, out := fun i => some (e i) }
  inner := inner
  outer := outer

theorem listLibrary_drawn {size : Nat} {hsize : 0 < size}
    {inner : List (ι → Ref) → Nat → V} {outer : Nat → V} (entries : List (ι → Ref))
    (k : Nat) : (listLibrary ι size hsize inner outer).drawn entries k = entries.drop k := by
  induction k with
  | zero => rfl
  | succ k ih =>
      rw [Library.drawn_succ, ih, ← List.tail_drop]
      cases entries.drop k <;> rfl

def listContainer {size : Nat} {hsize : 0 < size} {inner : List (ι → Ref) → Nat → V}
    {outer : Nat → V} (entries : List (ι → Ref))
    (hvalid : ∀ e ∈ entries, ∀ i, (e i).Valid size) :
    Container (listLibrary ι size hsize inner outer) where
  start := entries
  entries := entries
  yields := by
    intro k hk
    rw [listLibrary_drawn, List.drop_eq_getElem_cons hk]
    exact ⟨rfl, fun _ => rfl⟩
  stops := by
    intro k hk
    rw [listLibrary_drawn, List.drop_eq_nil_of_le hk]
    rfl
  valid := hvalid

end CloudabiCpp.Argdata.Cursor

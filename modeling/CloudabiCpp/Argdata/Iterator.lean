import Mathlib.Data.Fintype.Basic
import CloudabiCpp.Argdata.Cursor

/-!
`argdata_t::map_iterator` and `argdata_t::seq_iterator` as values. Both cache
what `next` wrote (`value_`) beside the cursor (`it_`) and share one text apart
from the number of cached pointers and the way they are copy constructed.
-/

namespace CloudabiCpp.Argdata.Iterator

open CloudabiCpp.Lib.Blocks
open CloudabiCpp.Argdata.Cursor

variable {ι C V : Type}

structure CachedIterator (ι C : Type) where
  value : ι → Nat
  it : C

/-- The members of `std::pair<argdata_t const *, argdata_t const *>`. -/
inductive Half where
  | first
  | second
  deriving DecidableEq

instance : Fintype Half where
  elems := {.first, .second}
  complete := fun h => by cases h <;> decide

abbrev MapIterator (C : Type) := CachedIterator Half C

abbrev SeqIterator (C : Type) := CachedIterator Unit C

/-- The pointer adjustment in both `operator=`: `src` and `dst` are the
addresses of `other.it_` and `it_`, and both comparisons are strict. -/
def relocate (size dst src p : Nat) : Nat :=
  if p > src ∧ p < src + size then rebase src dst p else p

theorem relocate_null (size dst src : Nat) : relocate size dst src 0 = 0 := by
  simp [relocate]

theorem relocate_pointer {size dst src : Nat} {ref : Ref}
    (hvalid : ref.Valid size) (hfirst : ref.PastFirstByte) (hclear : ref.ClearOf size src) :
    relocate size dst src (ref.pointer src) = ref.pointer dst := by
  cases ref with
  | outside p =>
      have hp : ¬ (p > src ∧ p < src + size) := fun h =>
        hclear ⟨Nat.le_of_lt h.1, h.2⟩
      simp [relocate, Ref.pointer, hp]
  | inside off =>
      have hpos : 0 < off := hfirst
      have hlt : off < size := hvalid
      have hp : src + off > src ∧ src + off < src + size := by omega
      simp [relocate, Ref.pointer, hp]

namespace CachedIterator

/-- The default constructor. It leaves `it_` uninitialised, with any bytes. -/
def default (it : C) : CachedIterator ι C where
  value := fun _ => 0
  it := it

/-- `operator=` of an object whose `it_` is at `dst`, from one whose `it_` is at
`src`. -/
def assign (lib : Library ι C V) (dst src : Nat) (other : CachedIterator ι C) :
    CachedIterator ι C where
  value := fun i => relocate lib.size dst src (other.value i)
  it := other.it

/-- Prefix `operator++` of an object whose `it_` is at `self`. -/
def increment (lib : Library ι C V) (self : Nat) (x : CachedIterator ι C) :
    CachedIterator ι C :=
  let result := lib.next x.it
  { value := fun i =>
      if result.more then
        match result.out i with
        | some ref => ref.pointer self
        | none => x.value i
      else 0
    it := result.cursor }

/-- `operator==`. -/
def equal [Fintype ι] (a b : CachedIterator ι C) : Bool :=
  decide (∀ i, a.value i = b.value i)

/-- `begin()`, whose local iterator has its `it_` at `self`. -/
def begin {lib : Library ι C V} (K : Container lib) (self : Nat) : CachedIterator ι C :=
  increment lib self { default K.start with it := K.start }

/-- `end()`, with whatever bytes its `it_` happens to hold. -/
def pastEnd (it : C) : CachedIterator ι C := default it

end CachedIterator

/-- How a class copy constructs the object at the first address from the one at
the second. -/
abbrev CopyConstructor (ι C : Type) :=
  (dst src : Nat) → CachedIterator ι C → CachedIterator ι C

/-- `map_iterator(map_iterator const &other) { *this = other; }` -/
def MapIterator.copyConstruct (lib : Library Half C V) : CopyConstructor Half C :=
  fun dst src other => CachedIterator.assign lib dst src other

/-- `seq_iterator` declares a constructor from `map_iterator const &` and none
from `seq_iterator const &`, so it is copied memberwise. -/
def SeqIterator.copyConstruct (_lib : Library Unit C V) : CopyConstructor Unit C :=
  fun _dst _src other => { value := other.value, it := other.it }

namespace CachedIterator

variable {lib : Library ι C V}

/-- What an iterator at logical position `k` looks like when its cursor object
is at `base`. -/
structure At (K : Container lib) (base k : Nat) (x : CachedIterator ι C) : Prop where
  value : ∀ i, x.value i = K.pointer base k i
  it : x.it = lib.drawn K.start (k + 1)

theorem increment_at {K : Container lib} {base k : Nat} {x : CachedIterator ι C}
    (hit : x.it = lib.drawn K.start k) : At K base k (increment lib base x) := by
  refine ⟨fun i => ?_, ?_⟩
  · simp only [increment, hit]
    by_cases hk : k < K.entries.length
    · obtain ⟨hmore, hout⟩ := K.yields k hk
      rw [Container.pointer_of_entry (List.getElem?_eq_getElem hk)]
      simp [hmore, hout]
    · have hlength : K.entries.length ≤ k := Nat.le_of_not_lt hk
      simp [K.stops k hlength, Container.pointer_of_length_le hlength]
  · simp only [increment, hit]
    exact (Library.drawn_succ lib K.start k).symm

theorem begin_at (K : Container lib) (base : Nat) : At K base 0 (begin K base) :=
  increment_at rfl

theorem At.increment {K : Container lib} {base k : Nat} {x : CachedIterator ι C}
    (hat : At K base k x) : At K base (k + 1) (increment lib base x) :=
  increment_at hat.it

theorem At.assign {K : Container lib} {src k : Nat} {x : CachedIterator ι C}
    (hat : At K src k x) (hfirst : K.PastFirstByte) (hclear : K.ClearOf src) (dst : Nat) :
    At K dst k (assign lib dst src x) := by
  refine ⟨fun i => ?_, hat.it⟩
  simp only [CachedIterator.assign, hat.value]
  cases hentry : K.entries[k]? with
  | none =>
      have hlength : K.entries.length ≤ k := List.getElem?_eq_none_iff.mp hentry
      simp [Container.pointer_of_length_le hlength, relocate_null]
  | some e =>
      rw [Container.pointer_of_entry hentry, Container.pointer_of_entry hentry]
      have hmem := List.mem_of_getElem? hentry
      exact relocate_pointer (K.valid e hmem i) (hfirst e hmem i) (hclear e hmem i)

theorem assign_null (dst src : Nat) {x : CachedIterator ι C} (hnull : ∀ i, x.value i = 0)
    (i : ι) : (CachedIterator.assign lib dst src x).value i = 0 := by
  simp [CachedIterator.assign, hnull, relocate_null]

theorem equal_iff [Fintype ι] (a b : CachedIterator ι C) :
    equal a b = true ↔ ∀ i, a.value i = b.value i := by
  simp [equal]

end CachedIterator

end CloudabiCpp.Argdata.Iterator

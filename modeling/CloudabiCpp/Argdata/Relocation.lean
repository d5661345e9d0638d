import CloudabiCpp.Argdata.Independence

/-!
What copy assignment does to a cached pointer, for all addresses: a pointer into
the source's cursor is to follow the cursor, any other is to stay. The comparison
with the first byte is strict, so a pointer to the first byte stays behind.
-/

namespace CloudabiCpp.Argdata.Relocation

open CloudabiCpp.Lib.Blocks
open CloudabiCpp.Argdata.Cursor
open CloudabiCpp.Argdata.Iterator
open CloudabiCpp.Argdata.Iterator.CachedIterator
open CloudabiCpp.Argdata.Independence

variable {ι C V : Type}

theorem relocate_first_byte (size dst src : Nat) : relocate size dst src src = src := by
  simp [relocate]

theorem relocate_eq_carry {size src p : Nat} (hfirst : p ≠ src) (dst : Nat) :
    relocate size dst src p = carry size src dst p := by
  have hrange : p > src ∧ p < src + size ↔ Inside size src p := by
    unfold Inside
    omega
  simp only [relocate, carry, hrange]

theorem relocate_relocate {size mid p : Nat} (hsize : 0 < size) (hclear : ¬ Inside size mid p)
    (dst src : Nat) :
    relocate size dst mid (relocate size mid src p) = relocate size dst src p := by
  have hmid : p ≠ mid := by
    rintro rfl
    exact hclear (inside_add hsize)
  rcases eq_or_ne p src with rfl | hfirst
  · rw [relocate_first_byte, relocate_first_byte, relocate_eq_carry hmid,
      carry_of_not_inside hclear]
  · have hnext : carry size src mid p ≠ mid := by
      by_cases hinside : Inside size src p
      · rw [carry_of_inside hinside]
        unfold rebase Inside at *
        omega
      · rwa [carry_of_not_inside hinside]
    rw [relocate_eq_carry hfirst, relocate_eq_carry hfirst, relocate_eq_carry hnext,
      carry_carry hclear]

theorem relocate_self (size src p : Nat) : relocate size src src p = p := by
  rcases eq_or_ne p src with rfl | hfirst
  · exact relocate_first_byte size p p
  · rw [relocate_eq_carry hfirst, carry_self]

/-- `operator=` of each object of the chain from the one before it. -/
def assignThrough (lib : Library ι C V) :
    (src : Nat) → (chain : List Nat) → CachedIterator ι C → CachedIterator ι C
  | _, [], x => x
  | src, dst :: chain, x => assignThrough lib dst chain (assign lib dst src x)

/-- What assigning `x`, whose `it_` is at `src`, to the object whose `it_` is at
`dst` owes the pointer cached under `i`. -/
structure RelocatesExactly (lib : Library ι C V) (dst src : Nat) (x : CachedIterator ι C)
    (i : ι) : Prop where
  carried : (assign lib dst src x).value i = carry lib.size src dst (x.value i)
  restored : ¬ Inside lib.size dst (x.value i) →
    (assign lib src dst (assign lib dst src x)).value i = x.value i
  chained : ∀ chain, (src :: chain ++ [dst]).Pairwise (Apart lib.size) →
    (∀ a ∈ chain ++ [dst], ¬ Inside lib.size a (x.value i)) →
      (assignThrough lib src (chain ++ [dst]) x).value i = (assign lib dst src x).value i

variable (lib : Library ι C V)

theorem value_assign (dst src : Nat) (x : CachedIterator ι C) (i : ι) :
    (assign lib dst src x).value i = relocate lib.size dst src (x.value i) := rfl

theorem value_assign_back {dst src : Nat} {x : CachedIterator ι C} {i : ι}
    (hclear : ¬ Inside lib.size dst (x.value i)) :
    (assign lib src dst (assign lib dst src x)).value i = x.value i := by
  rw [value_assign, value_assign, relocate_relocate lib.size_pos hclear, relocate_self]

/-- A pointer that stays out of the chain does so all along it. -/
theorem relocate_clear {size dst src p : Nat} {chain : List Nat}
    (hapart : ∀ a ∈ chain, Apart size dst a) (hclear : ∀ a ∈ chain, ¬ Inside size a p) :
    ∀ a ∈ chain, ¬ Inside size a (relocate size dst src p) := by
  intro a ha
  rcases eq_or_ne p src with rfl | hfirst
  · rw [relocate_first_byte]
    exact hclear a ha
  · rw [relocate_eq_carry hfirst]
    by_cases hinside : Inside size src p
    · rw [carry_of_inside hinside]
      exact not_inside_of_apart (hapart a ha) (inside_rebase hinside)
    · rw [carry_of_not_inside hinside]
      exact hclear a ha

theorem value_assignThrough {dst src : Nat} {x : CachedIterator ι C} {i : ι} {chain : List Nat}
    (hapart : (chain ++ [dst]).Pairwise (Apart lib.size))
    (hclear : ∀ a ∈ chain, ¬ Inside lib.size a (x.value i)) :
    (assignThrough lib src (chain ++ [dst]) x).value i = (assign lib dst src x).value i := by
  induction chain generalizing src x with
  | nil => rfl
  | cons a chain ih =>
      obtain ⟨ha, hchain⟩ := List.pairwise_cons.mp hapart
      have hfirst := hclear a List.mem_cons_self
      have hnext : ∀ b ∈ chain, ¬ Inside lib.size b ((assign lib a src x).value i) :=
        relocate_clear (fun b hb => ha b (List.mem_append_left _ hb))
          (fun b hb => hclear b (List.mem_cons_of_mem a hb))
      calc
        (assignThrough lib a (chain ++ [dst]) (assign lib a src x)).value i
          = (assign lib dst a (assign lib a src x)).value i := ih hchain hnext
        _ = (assign lib dst src x).value i := relocate_relocate lib.size_pos hfirst dst src

/-- Copy assignment relocates exactly the pointers other than the address of the
source's cursor. Assigning back and assigning through a chain are right for that
one as well: what is wrong is that it does not move at all. -/
theorem relocatesExactly_iff {dst src : Nat} (hapart : Apart lib.size src dst)
    (x : CachedIterator ι C) (i : ι) :
    RelocatesExactly lib dst src x i ↔ x.value i ≠ src := by
  constructor
  · rintro ⟨hcarried, -, -⟩ hfirst
    have hinside : Inside lib.size src src := inside_add lib.size_pos
    rw [value_assign, hfirst, relocate_first_byte, carry_of_inside hinside] at hcarried
    exact ne_of_apart lib.size_pos hapart (by simpa [rebase] using hcarried)
  · intro hfirst
    exact {
      carried := relocate_eq_carry hfirst dst
      restored := value_assign_back lib
      chained := fun chain hpairwise hclear =>
        value_assignThrough lib (List.pairwise_cons.mp hpairwise).2 fun a ha =>
          hclear a (List.mem_append_left _ ha) }

/-- A key outside the cursor and a value embedded at the given offset of the
cursor at address 100. -/
def embeddedValue (off : Nat) : MapIterator (List (Half → Ref)) where
  value := fun half => if half = Half.first then 5000 else 100 + off
  it := []

theorem relocatesExactly_fourth_byte :
    Apart 16 100 200 ∧ RelocatesExactly mapLibrary 200 100 (embeddedValue 4) .second :=
  ⟨by decide, (relocatesExactly_iff mapLibrary (by decide) (embeddedValue 4) .second).mpr
    (by decide)⟩

theorem not_relocatesExactly_first_byte :
    Apart 16 100 200 ∧ ¬ RelocatesExactly mapLibrary 200 100 (embeddedValue 0) .second := by
  constructor
  · decide
  · rintro ⟨hcarried, -, -⟩
    revert hcarried
    decide

end CloudabiCpp.Argdata.Relocation

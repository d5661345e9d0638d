import Mathlib.Data.List.Pairwise

/-!
Blocks of a flat address space, mostly of one size, and pointers carried from one
block to another.
-/

namespace CloudabiCpp.Lib.Blocks

def Inside (size base p : Nat) : Prop := base ≤ p ∧ p < base + size

def Apart (size a b : Nat) : Prop := a + size ≤ b ∨ b + size ≤ a

instance (size base p : Nat) : Decidable (Inside size base p) :=
  inferInstanceAs (Decidable (_ ∧ _))

instance (size a b : Nat) : Decidable (Apart size a b) :=
  inferInstanceAs (Decidable (_ ∨ _))

/-- The address that stands in block `dst` where `p` stands in block `src`. -/
def rebase (src dst p : Nat) : Nat := p - src + dst

theorem inside_add {size base off : Nat} (hoff : off < size) :
    Inside size base (base + off) := by
  unfold Inside
  omega

@[simp] theorem rebase_add (src dst off : Nat) : rebase src dst (src + off) = dst + off := by
  unfold rebase
  omega

theorem inside_rebase {size src dst p : Nat} (hinside : Inside size src p) :
    Inside size dst (rebase src dst p) := by
  unfold Inside rebase at *
  omega

theorem rebase_rebase {src mid dst p : Nat} (hsrc : src ≤ p) :
    rebase mid dst (rebase src mid p) = rebase src dst p := by
  unfold rebase
  omega

/-- A pointer into block `src` follows the block to `dst`; others stay. -/
def carry (size src dst p : Nat) : Nat :=
  if Inside size src p then rebase src dst p else p

theorem carry_of_inside {size src p : Nat} (hinside : Inside size src p) (dst : Nat) :
    carry size src dst p = rebase src dst p :=
  if_pos hinside

theorem carry_of_not_inside {size src p : Nat} (houtside : ¬ Inside size src p) (dst : Nat) :
    carry size src dst p = p :=
  if_neg houtside

/-- Moving on from a block that the pointer was not in before. -/
theorem carry_carry {size src mid p : Nat} (hclear : ¬ Inside size mid p) (dst : Nat) :
    carry size mid dst (carry size src mid p) = carry size src dst p := by
  by_cases hinside : Inside size src p
  · rw [carry_of_inside hinside, carry_of_inside hinside, carry_of_inside (inside_rebase hinside),
      rebase_rebase hinside.1]
  · rw [carry_of_not_inside hinside, carry_of_not_inside hinside, carry_of_not_inside hclear]

theorem carry_self (size src p : Nat) : carry size src src p = p := by
  by_cases hinside : Inside size src p
  · rw [carry_of_inside hinside]
    exact Nat.sub_add_cancel hinside.1
  · exact carry_of_not_inside hinside src

theorem apart_symm {size a b : Nat} (hapart : Apart size a b) : Apart size b a :=
  Or.symm hapart

instance (size : Nat) : Std.Symm (Apart size) := ⟨fun _ _ => apart_symm⟩

theorem not_apart_self {size a : Nat} (hsize : 0 < size) : ¬ Apart size a a := by
  unfold Apart
  omega

theorem ne_of_apart {size a b : Nat} (hsize : 0 < size) (hapart : Apart size a b) : a ≠ b := by
  rintro rfl
  exact not_apart_self hsize hapart

theorem not_inside_of_apart {size a b p : Nat} (hapart : Apart size a b)
    (hinside : Inside size a p) : ¬ Inside size b p := by
  unfold Apart Inside at *
  omega

/-- Blocks of two sizes share no byte. -/
def Separate (n m a b : Nat) : Prop := a + n ≤ b ∨ b + m ≤ a

instance (n m a b : Nat) : Decidable (Separate n m a b) :=
  inferInstanceAs (Decidable (_ ∨ _))

theorem separate_symm {n m a b : Nat} (hseparate : Separate n m a b) : Separate m n b a :=
  Or.symm hseparate

theorem ne_of_separate {n m a b : Nat} (hn : 0 < n) (hm : 0 < m)
    (hseparate : Separate n m a b) : a ≠ b := by
  unfold Separate at hseparate
  omega

theorem not_inside_of_separate {n m a b p : Nat} (hseparate : Separate n m a b)
    (hinside : Inside n a p) : ¬ Inside m b p := by
  unfold Separate Inside at *
  omega

def owner (size : Nat) (blocks : List Nat) (p : Nat) : Option Nat :=
  blocks.find? fun base => decide (Inside size base p)

theorem owner_eq_some {size a p : Nat} {blocks : List Nat}
    (hapart : blocks.Pairwise (Apart size)) (hmem : a ∈ blocks)
    (hinside : Inside size a p) : owner size blocks p = some a := by
  induction blocks with
  | nil => cases hmem
  | cons b blocks ih =>
      obtain ⟨hhead, htail⟩ := List.pairwise_cons.mp hapart
      rcases List.mem_cons.mp hmem with rfl | hmem
      · simp [owner, hinside]
      · have hb : ¬ Inside size b p :=
          not_inside_of_apart (apart_symm (hhead a hmem)) hinside
        simpa [owner, hb] using ih htail hmem

theorem owner_eq_none {size p : Nat} {blocks : List Nat}
    (houtside : ∀ a ∈ blocks, ¬ Inside size a p) : owner size blocks p = none := by
  simpa [owner] using houtside

end CloudabiCpp.Lib.Blocks

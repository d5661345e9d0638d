import Mathlib.Data.List.Basic

/-!
Growable arrays that are handed out by the address of their first element. A
write through that address is defined only within the elements the array has at
the time.
-/

namespace CloudabiCpp.Lib.Vectors

variable {α : Type*}

structure Vec (α : Type*) where
  data : Nat
  capacity : Nat
  elements : List α
  length_le_capacity : elements.length ≤ capacity
  data_ne_null : 0 < capacity → data ≠ 0

/-- Where, and with how much room, new storage for `n` elements is found. -/
structure Allocator where
  address : Nat → Nat
  room : Nat → Nat
  le_room : ∀ n, n ≤ room n
  address_ne_null : ∀ n, 0 < room n → address n ≠ 0

namespace Vec

def empty : Vec α where
  data := 0
  capacity := 0
  elements := []
  length_le_capacity := Nat.le_refl 0
  data_ne_null := fun h => absurd h (Nat.lt_irrefl 0)

def isNull (v : Vec α) : Bool := decide (v.data = 0)

/-- The elements after a change of their number. -/
def resized (x : α) (elements : List α) (n : Nat) : List α :=
  elements.take n ++ List.replicate (n - elements.length) x

@[simp] theorem length_resized (x : α) (elements : List α) (n : Nat) :
    (resized x elements n).length = n := by
  simp only [resized, List.length_append, List.length_take, List.length_replicate]
  omega

theorem resized_of_le {elements : List α} {n : Nat} (hn : n ≤ elements.length) (x : α) :
    resized x elements n = elements.take n := by
  simp [resized, Nat.sub_eq_zero_of_le hn]

/-- `resize(n)`: new elements are `x`, and storage is never given up. -/
def resize (alloc : Allocator) (x : α) (v : Vec α) (n : Nat) : Vec α :=
  if hroom : n ≤ v.capacity then
    { v with
      elements := resized x v.elements n
      length_le_capacity := by rwa [length_resized] }
  else
    { data := alloc.address n
      capacity := alloc.room n
      elements := resized x v.elements n
      length_le_capacity := by
        rw [length_resized]
        exact alloc.le_room n
      data_ne_null := alloc.address_ne_null n }

@[simp] theorem elements_resize (alloc : Allocator) (x : α) (v : Vec α) (n : Nat) :
    (v.resize alloc x n).elements = resized x v.elements n := by
  unfold resize
  split <;> rfl

theorem elements_of_isNull {v : Vec α} (hnull : v.isNull = true) : v.elements = [] := by
  have hcapacity : v.capacity = 0 := by
    by_contra hpos
    exact v.data_ne_null (Nat.pos_of_ne_zero hpos) (of_decide_eq_true hnull)
  have hlength := v.length_le_capacity
  rw [hcapacity] at hlength
  exact List.eq_nil_of_length_eq_zero (Nat.le_zero.mp hlength)

/-- `data()[i] = x`. -/
def store (v : Vec α) (i : Nat) (x : α) : Option (Vec α) :=
  if i < v.elements.length then
    some
      { v with
        elements := v.elements.set i x
        length_le_capacity := by
          rw [List.length_set]
          exact v.length_le_capacity }
  else none

/-- Writes one after another, from index `i` on. -/
def storeAll (v : Vec α) : (i : Nat) → List α → Option (Vec α)
  | _, [] => some v
  | i, x :: xs => (v.store i x).bind fun w => w.storeAll (i + 1) xs

theorem store_append {v : Vec α} {before rest : List α} {old : α}
    (helements : v.elements = before ++ old :: rest) (x : α) :
    ∃ w, v.store before.length x = some w ∧ w.elements = before ++ x :: rest := by
  have hlt : before.length < v.elements.length := by
    rw [helements, List.length_append, List.length_cons]
    omega
  refine ⟨_, if_pos hlt, ?_⟩
  simp [helements]

theorem storeAll_append {xs old : List α} (hlength : old.length = xs.length) :
    ∀ {v : Vec α} {before rest : List α}, v.elements = before ++ (old ++ rest) →
      ∃ w, v.storeAll before.length xs = some w ∧ w.elements = before ++ (xs ++ rest) := by
  induction xs generalizing old with
  | nil =>
      intro v before rest helements
      obtain rfl := List.eq_nil_of_length_eq_zero hlength
      exact ⟨v, rfl, helements⟩
  | cons x xs ih =>
      intro v before rest helements
      obtain ⟨y, old, rfl⟩ := List.exists_cons_of_length_eq_add_one hlength
      obtain ⟨w, hstore, hw⟩ := store_append helements x
      have hnext : w.elements = (before ++ [x]) ++ (old ++ rest) := by simpa using hw
      obtain ⟨u, hstores, hu⟩ := ih (by simpa using hlength) hnext
      refine ⟨u, ?_, by simpa using hu⟩
      rw [storeAll, hstore]
      simpa using hstores

/-- Writing from the first element on stays within the elements if there are
enough of them, and replaces as many as are written. -/
theorem storeAll_zero {v : Vec α} {xs : List α} (hroom : xs.length ≤ v.elements.length) :
    ∃ w, v.storeAll 0 xs = some w ∧ w.elements = xs ++ v.elements.drop xs.length := by
  have hlength : (v.elements.take xs.length).length = xs.length := by
    rw [List.length_take, Nat.min_eq_left hroom]
  exact @storeAll_append _ _ _ hlength v [] _ (List.take_append_drop xs.length v.elements).symm

/-- An array of exactly the written size holds what was written. -/
theorem storeAll_resize (alloc : Allocator) (x : α) (v : Vec α) (xs : List α) :
    ∃ w, (v.resize alloc x xs.length).storeAll 0 xs = some w ∧ w.elements = xs := by
  have hlength : (v.resize alloc x xs.length).elements.length = xs.length := by
    rw [elements_resize, length_resized]
  obtain ⟨w, hstore, hw⟩ := storeAll_zero (Nat.le_of_eq hlength.symm)
  refine ⟨w, hstore, ?_⟩
  rw [hw, List.drop_eq_nil_of_le (Nat.le_of_eq hlength), List.append_nil]

/-- An array that was at least as large holds it after it is cut back. -/
theorem elements_cut {v w : Vec α} {xs : List α} (hroom : xs.length ≤ v.elements.length)
    (hstore : v.storeAll 0 xs = some w) (alloc : Allocator) (x : α) :
    (w.resize alloc x xs.length).elements = xs := by
  obtain ⟨u, hu, helements⟩ := storeAll_zero hroom
  obtain rfl := Option.some.inj (hu.symm.trans hstore)
  rw [elements_resize, helements, resized_of_le (by simp), List.take_left]

end Vec
end CloudabiCpp.Lib.Vectors

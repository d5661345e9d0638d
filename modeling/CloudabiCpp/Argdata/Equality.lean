import Mathlib.Algebra.Order.BigOperators.Group.List
import Mathlib.Algebra.Order.BigOperators.Group.Finset
import Mathlib.Data.List.Nodup
import CloudabiCpp.Argdata.Independence

/-!
`operator==` compares the cached addresses. For iterators that were advanced and
assigned, this is equality of position exactly for the containers whose entries
all lie outside the cursor and are pairwise different.
-/

namespace CloudabiCpp.Argdata.Equality

open CloudabiCpp.Lib.Blocks
open CloudabiCpp.Lib.LiveObjects
open CloudabiCpp.Lib.Runs
open CloudabiCpp.Argdata.Cursor
open CloudabiCpp.Argdata.Iterator
open CloudabiCpp.Argdata.IteratorStore
open CloudabiCpp.Argdata.Independence

variable {ι C V : Type} {lib : Library ι C V}

def isCopy : Prim C → Bool
  | .copy _ _ => true
  | _ => false

def CopyFree (ops : List (Op C)) : Prop :=
  ∀ op ∈ ops.flatMap Op.code, isCopy op = false

instance (ops : List (Op C)) : Decidable (CopyFree ops) :=
  inferInstanceAs (Decidable (∀ op ∈ ops.flatMap Op.code, isCopy op = false))

/-- The index of the denoted entry; all positions past the end are one. -/
def entryIndex (K : Container lib) (pos : Option Nat) : Option Nat :=
  pos.filter fun k => decide (k < K.entries.length)

def entryAt (K : Container lib) (pos : Option Nat) : Option (ι → Ref) :=
  pos.bind fun k => K.entries[k]?

/-- Equality of iterators is equality of their positions, in every program that
copies them by assignment. -/
def EqualityIsPosition [Fintype ι] (copyConstruct : CopyConstructor ι C)
    (K : Container lib) : Prop :=
  ∀ (bytes : Nat → CachedIterator ι C) (ops : List (Op C)),
    LegalProgram K ops → CopyFree ops →
      ∀ n, ∀ a ∈ (positionsAfter ops n).live, ∀ b ∈ (positionsAfter ops n).live,
        (CachedIterator.equal ((objectsAfter copyConstruct K bytes ops n).obj a)
            ((objectsAfter copyConstruct K bytes ops n).obj b) = true ↔
          entryIndex K ((positionsAfter ops n).obj a) =
            entryIndex K ((positionsAfter ops n).obj b))

/-- No entry is embedded in the cursor, and none occurs at two positions. -/
def DistinctOutside (K : Container lib) : Prop :=
  (∀ e ∈ K.entries, ∀ i, (e i).isOutside = true) ∧ K.entries.Nodup

theorem copiesPosition_of_copyFree (copyConstruct : CopyConstructor ι C) {K : Container lib}
    (hfirst : K.PastFirstByte) {op : Prim C} (hop : isCopy op = false) (P : Positions) :
    CopiesPosition copyConstruct K P op := by
  cases op with
  | copy a b => cases hop
  | assign a b => exact fun hclear x hdenotes => hdenotes.assign hfirst hclear a
  | _ => trivial

theorem simulates_copyFree (copyConstruct : CopyConstructor ι C) {K : Container lib}
    (hfirst : K.PastFirstByte) (bytes : Nat → CachedIterator ι C) {ops : List (Op C)}
    (hlegal : LegalProgram K ops) (hfree : CopyFree ops) (n : Nat) :
    Simulates K (objectsAfter copyConstruct K bytes ops n) (positionsAfter ops n) := by
  refine simulates_after copyConstruct bytes hlegal (Along.of_mem (fun op hop P => ?_) _) n
  refine Along.of_mem (fun call hcall Q => ?_) P
  exact copiesPosition_of_copyFree copyConstruct hfirst
    (hfree call (List.mem_flatMap.mpr ⟨op, hop, hcall⟩)) Q

theorem value_eq {K : Container lib} {a : Nat} {x : CachedIterator ι C} {pos : Option Nat}
    (hdenotes : Denotes K a x pos) (i : ι) :
    x.value i = ((entryAt K pos).map fun e => (e i).pointer a).getD 0 := by
  cases pos with
  | none => simpa [entryAt] using hdenotes i
  | some k =>
      rw [hdenotes.value]
      cases hentry : K.entries[k]? with
      | none => simp [entryAt, Container.pointer, hentry]
      | some e => simp [entryAt, Container.pointer, hentry]

theorem entryAt_mem {K : Container lib} {pos : Option Nat} {e : ι → Ref}
    (hentry : entryAt K pos = some e) : e ∈ K.entries := by
  obtain ⟨k, -, hk⟩ := Option.bind_eq_some_iff.mp hentry
  exact List.mem_of_getElem? hk

theorem eq_of_pointer_eq {r t : Ref} {a b : Nat} (hr : r.isOutside = true)
    (ht : t.isOutside = true) (heq : r.pointer a = t.pointer b) : r = t := by
  cases r with
  | inside off => cases hr
  | outside p =>
      cases t with
      | inside off => cases ht
      | outside q => simpa [Ref.pointer] using heq

theorem equal_iff_entryAt [Fintype ι] [Nonempty ι] {K : Container lib} {a b : Nat}
    {x y : CachedIterator ι C} {p q : Option Nat} (ha : a ≠ 0) (hb : b ≠ 0)
    (hx : Denotes K a x p) (hy : Denotes K b y q)
    (houtside : ∀ e ∈ K.entries, ∀ i, (e i).isOutside = true) :
    CachedIterator.equal x y = true ↔ entryAt K p = entryAt K q := by
  rw [CachedIterator.equal_iff]
  simp only [value_eq hx, value_eq hy]
  constructor
  · intro hvalue
    have hi := hvalue (Classical.arbitrary ι)
    cases hp : entryAt K p with
    | none =>
        cases hq : entryAt K q with
        | none => rfl
        | some f =>
            rw [hp, hq] at hi
            exact absurd hi.symm (Ref.pointer_ne_null (K.valid f (entryAt_mem hq) _) hb)
    | some e =>
        cases hq : entryAt K q with
        | none =>
            rw [hp, hq] at hi
            exact absurd hi (Ref.pointer_ne_null (K.valid e (entryAt_mem hp) _) ha)
        | some f =>
            congr 1
            funext i
            have hpointer := hvalue i
            rw [hp, hq] at hpointer
            exact eq_of_pointer_eq (houtside e (entryAt_mem hp) i)
              (houtside f (entryAt_mem hq) i) hpointer
  · intro hentry i
    rw [hentry]
    cases hq : entryAt K q with
    | none => rfl
    | some f => exact Ref.pointer_of_isOutside (houtside f (entryAt_mem hq) i) a b

theorem entryAt_eq_bind (K : Container lib) (p : Option Nat) :
    entryAt K p = (entryIndex K p).bind fun k => K.entries[k]? := by
  cases p with
  | none => rfl
  | some k =>
      by_cases hk : k < K.entries.length
      · simp [entryAt, entryIndex, Option.filter, hk]
      · simp [entryAt, entryIndex, Option.filter, hk]

theorem lt_of_entryIndex {K : Container lib} {p : Option Nat} {k : Nat}
    (hindex : entryIndex K p = some k) : k < K.entries.length := by
  obtain ⟨-, hk⟩ := Option.filter_eq_some_iff.mp hindex
  exact of_decide_eq_true hk

theorem entryIndex_eq_iff_entryAt {K : Container lib} (hnodup : K.entries.Nodup)
    (p q : Option Nat) : entryIndex K p = entryIndex K q ↔ entryAt K p = entryAt K q := by
  constructor
  · intro hindex
    rw [entryAt_eq_bind, entryAt_eq_bind, hindex]
  · intro hentry
    rw [entryAt_eq_bind, entryAt_eq_bind] at hentry
    cases hp : entryIndex K p with
    | none =>
        cases hq : entryIndex K q with
        | none => rfl
        | some j =>
            rw [hp, hq] at hentry
            have hj := lt_of_entryIndex hq
            simp [hj] at hentry
    | some k =>
        have hk := lt_of_entryIndex hp
        cases hq : entryIndex K q with
        | none =>
            rw [hp, hq] at hentry
            simp [hk] at hentry
        | some j =>
            rw [hp, hq] at hentry
            exact congrArg some ((List.getElem?_inj hk hnodup).mp hentry)

section Programs

variable [Fintype ι]

/-- The address of an entry that lies outside every cursor. -/
def outsideAddress : Ref → Nat
  | .outside p => p
  | .inside _ => 0

theorem exists_clear (K : Container lib) :
    ∃ base, ∀ a, base ≤ a → a ≠ 0 ∧ K.ClearOf a := by
  refine ⟨(K.entries.map fun e => ∑ i, outsideAddress (e i)).sum + 1, ?_⟩
  intro a ha
  refine ⟨by omega, fun e he i => ?_⟩
  cases href : e i with
  | inside off => trivial
  | outside p =>
      have hentry : p ≤ ∑ j, outsideAddress (e j) := by
        have hi := Finset.single_le_sum
          (fun j _ => Nat.zero_le (outsideAddress (e j))) (Finset.mem_univ i)
        simpa [href, outsideAddress] using hi
      have hsum : ∑ j, outsideAddress (e j) ≤
          (K.entries.map fun e => ∑ i, outsideAddress (e i)).sum :=
        List.single_le_sum (fun _ _ => Nat.zero_le _) _ (List.mem_map_of_mem he)
      intro hinside
      unfold Inside at hinside
      omega

omit [Fintype ι] in
theorem increments (K : Container lib) (k : Nat) {P : Positions} {a pos : Nat}
    (ha : a ∈ P.live) (hpos : P.obj a = some pos) :
    let ops : List (Op C) := List.replicate k (.increment a)
    Along Positions.apply (Positions.Allows K) P ops ∧
      (run Positions.apply P ops).live = P.live ∧
      (run Positions.apply P ops).obj a = some (pos + k) ∧
      ∀ b, b ≠ a → (run Positions.apply P ops).obj b = P.obj b := by
  induction k generalizing P pos with
  | zero => simp [hpos]
  | succ k ih =>
      intro ops
      have hstep : (P.apply (.increment a : Op C)).obj a = some (pos + 1) := by
        simp [Positions.apply, hpos]
      obtain ⟨hlegal, hlive, hself, hother⟩ :=
        ih (P := P.apply (.increment a : Op C)) ha hstep
      refine ⟨⟨⟨ha, by simp [hpos]⟩, hlegal⟩, hlive, ?_, fun b hb => ?_⟩
      · simpa [ops, List.replicate_succ, Nat.add_comm, Nat.add_left_comm] using hself
      · rw [← Objects.put_obj_of_ne P ((P.obj a).map (· + 1)) hb]
        exact hother b hb

/-- Two iterators made by `begin()`, the first advanced `k` times and the second
`j` times. -/
def twoIterators (a b k j : Nat) : List (Op C) :=
  .begin a none :: List.replicate k (.increment a) ++
    (.begin b none :: List.replicate j (.increment b))

omit [Fintype ι] in
theorem twoIterators_onlyAdvance {a b k j : Nat} {op : Op C}
    (hop : op ∈ (twoIterators a b k j : List (Op C))) {call : Prim C} (hcall : call ∈ op.code) :
    (∃ c, call = .begin c) ∨ ∃ c, call = .increment c := by
  simp only [twoIterators, List.cons_append, List.mem_cons, List.mem_append,
    List.mem_replicate] at hop
  rcases hop with rfl | ⟨-, rfl⟩ | rfl | ⟨-, rfl⟩ <;>
    simp only [Op.code, List.mem_singleton] at hcall <;> subst hcall
  · exact Or.inl ⟨a, rfl⟩
  · exact Or.inr ⟨a, rfl⟩
  · exact Or.inl ⟨b, rfl⟩
  · exact Or.inr ⟨b, rfl⟩

omit [Fintype ι] in
theorem copyFree_twoIterators (a b k j : Nat) :
    CopyFree (twoIterators a b k j : List (Op C)) := by
  intro call hcall
  obtain ⟨op, hop, hcall⟩ := List.mem_flatMap.mp hcall
  obtain ⟨c, rfl⟩ | ⟨c, rfl⟩ := twoIterators_onlyAdvance hop hcall
  · rfl
  · rfl

omit [Fintype ι] in
theorem simulates_twoIterators (copyConstruct : CopyConstructor ι C) {K : Container lib}
    (bytes : Nat → CachedIterator ι C) {a b k j : Nat}
    (hlegal : LegalProgram K (twoIterators a b k j : List (Op C))) (n : Nat) :
    Simulates K (objectsAfter copyConstruct K bytes (twoIterators a b k j) n)
      (positionsAfter (twoIterators a b k j : List (Op C)) n) := by
  refine simulates_after copyConstruct bytes hlegal (Along.of_mem (fun op hop P => ?_) _) n
  refine Along.of_mem (fun call hcall Q => ?_) P
  obtain ⟨c, rfl⟩ | ⟨c, rfl⟩ := twoIterators_onlyAdvance hop hcall
  · trivial
  · trivial

omit [Fintype ι] in
theorem twoIterators_positions (K : Container lib) {a b : Nat} (k j : Nat)
    (ha : a ≠ 0 ∧ K.ClearOf a) (hb : b ≠ 0 ∧ K.ClearOf b) (hapart : Apart lib.size b a) :
    LegalProgram K (twoIterators a b k j) ∧
      ∃ n, (positionsAfter (twoIterators a b k j : List (Op C)) n).live = [b, a] ∧
        (positionsAfter (twoIterators a b k j : List (Op C)) n).obj a = some k ∧
        (positionsAfter (twoIterators a b k j : List (Op C)) n).obj b = some j := by
  have hne : a ≠ b := (ne_of_apart lib.size_pos hapart).symm
  let P₁ : Positions := noPositions.apply (.begin a none : Op C)
  have ha₁ : a ∈ P₁.live := by simp [P₁, Positions.apply]
  have hpos₁ : P₁.obj a = some 0 := by simp [P₁, Positions.apply]
  obtain ⟨hlegal₁, hlive₂, hself₂, -⟩ := increments (C := C) K k ha₁ hpos₁
  let P₂ : Positions := run Positions.apply P₁ (List.replicate k (.increment a : Op C))
  have hlive : P₂.live = [a] := hlive₂
  let P₃ : Positions := P₂.apply (.begin b none : Op C)
  have hb₃ : b ∈ P₃.live := by simp [P₃, Positions.apply]
  have hpos₃ : P₃.obj b = some 0 := by simp [P₃, Positions.apply]
  obtain ⟨hlegal₃, hlive₄, hself₄, hother₄⟩ := increments (C := C) K j hb₃ hpos₃
  have hfirst : Positions.Allows K noPositions (.begin a none : Op C) :=
    ⟨⟨ha.1, by simp [noPositions], ha.2⟩, by simp⟩
  have hsecond : Positions.Allows K P₂ (.begin b none : Op C) := by
    refine ⟨⟨hb.1, fun c hc => ?_, hb.2⟩, by simp⟩
    rw [hlive, List.mem_singleton] at hc
    rw [hc]
    exact hapart
  constructor
  · rw [LegalProgram, twoIterators, along_append]
    exact ⟨⟨hfirst, hlegal₁⟩, ⟨hsecond, hlegal₃⟩⟩
  · refine ⟨(twoIterators a b k j : List (Op C)).length, ?_⟩
    simp only [positionsAfter, List.take_length]
    rw [twoIterators, run_append]
    change (run Positions.apply P₃ (List.replicate j (.increment b : Op C))).live = _ ∧
      (run Positions.apply P₃ (List.replicate j (.increment b : Op C))).obj a = _ ∧
      (run Positions.apply P₃ (List.replicate j (.increment b : Op C))).obj b = _
    refine ⟨?_, ?_, by simpa using hself₄⟩
    · rw [hlive₄]
      simp [P₃, Positions.apply, hlive]
    · rw [hother₄ a hne]
      simpa [P₃, Positions.apply, Objects.place_obj_of_ne _ _ hne, P₂] using hself₂

theorem distinctOutside_of_equalityIsPosition (copyConstruct : CopyConstructor ι C)
    {K : Container lib} (hequal : EqualityIsPosition copyConstruct K) :
    DistinctOutside K := by
  obtain ⟨base, hclear⟩ := exists_clear K
  let a := base
  let b := base + lib.size
  have hsize := lib.size_pos
  have hapart : Apart lib.size b a := Or.inr (Nat.le_refl _)
  -- the two programs below differ in how far the iterators are advanced
  have hcompare : ∀ (k j : Nat) (e f : ι → Ref), K.entries[k]? = some e → K.entries[j]? = some f →
      ((∀ i, (e i).pointer a = (f i).pointer b) ↔ k = j) := by
    intro k j e f hk hj
    obtain ⟨hlegal, n, hlive, hposa, hposb⟩ := twoIterators_positions (C := C) K k j
      (hclear a (Nat.le_refl _)) (hclear b (Nat.le_add_right _ _)) hapart
    let bytes : Nat → CachedIterator ι C := fun _ => CachedIterator.default K.start
    have hsim := simulates_twoIterators copyConstruct bytes hlegal n
    have ha := hsim.related.obj a (by simp [hlive])
    have hb := hsim.related.obj b (by simp [hlive])
    have hiff := hequal bytes _ hlegal (copyFree_twoIterators a b k j) n a
      (by simp [hlive]) b (by simp [hlive])
    obtain ⟨hklt, rfl⟩ := List.getElem?_eq_some_iff.mp hk
    obtain ⟨hjlt, rfl⟩ := List.getElem?_eq_some_iff.mp hj
    rw [CachedIterator.equal_iff] at hiff
    simpa [value_eq ha, value_eq hb, hposa, hposb, entryAt, entryIndex, Option.filter,
      hklt, hjlt] using hiff
  have houtside : ∀ e ∈ K.entries, ∀ i, (e i).isOutside = true := by
    intro e he i
    obtain ⟨k, hk⟩ := List.getElem?_of_mem he
    have hpointer := (hcompare k k e e hk hk).mpr rfl i
    cases href : e i with
    | outside p => rfl
    | inside off =>
        simp only [href, Ref.pointer, a, b] at hpointer
        omega
  refine ⟨houtside, List.nodup_iff_getElem?_ne_getElem?.mpr ?_⟩
  intro k j hlt hj hentry
  have hjentry := List.getElem?_eq_getElem hj
  rw [hjentry] at hentry
  have hkj := (hcompare k j _ _ hentry hjentry).mp fun i =>
    Ref.pointer_of_isOutside (houtside _ (List.getElem_mem hj) i) a b
  omega

end Programs

theorem equalityIsPosition_iff [Fintype ι] [Nonempty ι]
    (copyConstruct : CopyConstructor ι C) (K : Container lib) :
    EqualityIsPosition copyConstruct K ↔ DistinctOutside K := by
  constructor
  · exact distinctOutside_of_equalityIsPosition copyConstruct
  · rintro ⟨houtside, hnodup⟩ bytes ops hlegal hfree n a ha b hb
    have hfirst : K.PastFirstByte :=
      fun e he i => Ref.pastFirstByte_of_isOutside (houtside e he i)
    have hsim := simulates_copyFree copyConstruct hfirst bytes hlegal hfree n
    rw [equal_iff_entryAt (hsim.placed.nonnull a ha) (hsim.placed.nonnull b hb)
      (hsim.related.obj a ha) (hsim.related.obj b hb) houtside,
      entryIndex_eq_iff_entryAt hnodup]

/-- `operator==` is equality of position exactly on the maps and sequences whose
entries lie outside the cursor and are pairwise different. -/
theorem iterator_equal_iff_position {mapLib : Library Half C V} {seqLib : Library Unit C V}
    (map : Container mapLib) (seq : Container seqLib) :
    (EqualityIsPosition (MapIterator.copyConstruct mapLib) map ↔ DistinctOutside map) ∧
      (EqualityIsPosition (SeqIterator.copyConstruct seqLib) seq ↔ DistinctOutside seq) := by
  have : Nonempty Half := ⟨.first⟩
  exact ⟨equalityIsPosition_iff (MapIterator.copyConstruct mapLib) map,
    equalityIsPosition_iff (SeqIterator.copyConstruct seqLib) seq⟩

def repeatedMap : Container mapLibrary :=
  listContainer
    [fun h => if h = Half.first then .outside 5000 else .outside 6000,
      fun h => if h = Half.first then .outside 5000 else .outside 6000]
    (by decide)

def assignProgram : List (Op (List (Unit → Ref))) :=
  [.begin 100 none, .pastEnd 200 [], .assign 200 100]

/-- An assigned copy of an iterator over an encoded sequence differs from its
original, and the two positions of a repeated pair compare equal. -/
theorem iterator_equal_not_position :
    (¬ EqualityIsPosition (SeqIterator.copyConstruct seqLibrary) encodedSeq) ∧
      ¬ EqualityIsPosition (MapIterator.copyConstruct mapLibrary) repeatedMap := by
  constructor
  · intro hequal
    have hcopy := hequal (fun _ => .default []) assignProgram (by decide) (by decide) 3
      100 (by decide) 200 (by decide)
    revert hcopy
    decide
  · intro hequal
    have hrepeated := hequal (fun _ => .default []) (twoIterators 100 200 0 1) (by decide)
      (by decide) 3 100 (by decide) 200 (by decide)
    revert hrepeated
    decide

end CloudabiCpp.Argdata.Equality

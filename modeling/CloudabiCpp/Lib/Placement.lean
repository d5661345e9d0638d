import CloudabiCpp.Lib.Aggregates

/-!
The natural layout of structs and unions. Members of a struct are placed one after
the other, each at the next multiple of its alignment; those of a union all begin
where the union does. No object is empty.
-/

namespace CloudabiCpp.Lib.Placement

open CloudabiCpp.Lib.Declarations
open CloudabiCpp.Lib.Aggregates

def roundUp (n a : Nat) : Nat := (n + a - 1) / a * a

theorem dvd_roundUp (n a : Nat) : a ∣ roundUp n a := Nat.dvd_mul_left a _

theorem le_roundUp {a : Nat} (ha : 0 < a) (n : Nat) : n ≤ roundUp n a := by
  have hdiv := Nat.div_add_mod' (n + a - 1) a
  have hmod := Nat.mod_lt (n + a - 1) ha
  unfold roundUp
  omega

theorem roundUp_of_dvd {n a : Nat} (ha : 0 < a) (hdvd : a ∣ n) : roundUp n a = n := by
  obtain ⟨k, rfl⟩ := hdvd
  have hdiv : (a * k + a - 1) / a = k := by
    rw [Nat.add_sub_assoc ha, Nat.mul_add_div ha, Nat.div_eq_of_lt (by omega), Nat.add_zero]
  rw [roundUp, hdiv, Nat.mul_comm]

theorem roundUp_zero {a : Nat} (ha : 0 < a) : roundUp 0 a = 0 :=
  roundUp_of_dvd ha (Nat.dvd_zero a)

/-- The size and the alignment of an object. -/
@[ext] structure Box where
  size : Nat
  align : Nat
  size_pos : 0 < size
  align_pos : 0 < align
  dvd : align ∣ size

/-- As strictly aligned as it is large. -/
def Box.scalar (k : Nat) : Box where
  size := 2 ^ k
  align := 2 ^ k
  size_pos := Nat.two_pow_pos k
  align_pos := Nat.two_pow_pos k
  dvd := Nat.dvd_refl _

def atLeastOne (ns : List Nat) : Nat := ns.foldr max 1

theorem atLeastOne_pos (ns : List Nat) : 0 < atLeastOne ns := by
  induction ns with
  | nil => exact Nat.one_pos
  | cons n ns ih => exact Nat.lt_of_lt_of_le ih (Nat.le_max_right n _)

theorem le_atLeastOne {n : Nat} {ns : List Nat} (hn : n ∈ ns) : n ≤ atLeastOne ns := by
  induction ns with
  | nil => cases hn
  | cons m ns ih =>
      rcases List.mem_cons.mp hn with rfl | hrest
      · exact Nat.le_max_left n _
      · exact (ih hrest).trans (Nat.le_max_right m _)

/-- The strictest alignment. -/
def alignment (bs : List Box) : Nat := atLeastOne (bs.map Box.align)

def largest (bs : List Box) : Nat := atLeastOne (bs.map Box.size)

/-- Where the boxes begin if the first byte that is free is number `n`. -/
def starts : Nat → List Box → List Nat
  | _, [] => []
  | n, b :: bs => roundUp n b.align :: starts (roundUp n b.align + b.size) bs

def endAfter : Nat → List Box → Nat
  | n, [] => n
  | n, b :: bs => endAfter (roundUp n b.align + b.size) bs

theorem length_starts (n : Nat) (bs : List Box) : (starts n bs).length = bs.length := by
  induction bs generalizing n with
  | nil => rfl
  | cons b bs ih => rw [starts, List.length_cons, ih, List.length_cons]

theorem le_endAfter (n : Nat) (bs : List Box) : n ≤ endAfter n bs := by
  induction bs generalizing n with
  | nil => exact Nat.le_refl n
  | cons b bs ih =>
      have hround := le_roundUp b.align_pos n
      have hrest := ih (roundUp n b.align + b.size)
      rw [endAfter]
      omega

def padded (n a : Nat) (hn : 0 < n) (ha : 0 < a) : Box where
  size := roundUp n a
  align := a
  size_pos := Nat.lt_of_lt_of_le hn (le_roundUp ha n)
  align_pos := ha
  dvd := dvd_roundUp n a

def structBox (bs : List Box) : Box :=
  padded (max 1 (endAfter 0 bs)) (alignment bs) (Nat.le_max_left 1 _) (atLeastOne_pos _)

def unionBox (bs : List Box) : Box :=
  padded (largest bs) (alignment bs) (atLeastOne_pos _) (atLeastOne_pos _)

theorem le_structBox (bs : List Box) : endAfter 0 bs ≤ (structBox bs).size :=
  (Nat.le_max_right 1 _).trans (le_roundUp (atLeastOne_pos _) _)

theorem le_unionBox {b : Box} {bs : List Box} (hb : b ∈ bs) : b.size ≤ (unionBox bs).size :=
  (le_atLeastOne (List.mem_map_of_mem hb)).trans (le_roundUp (atLeastOne_pos _) _)

/-- Things that have been placed in a box. -/
structure Laid (α : Type*) where
  box : Box
  offsets : List (α × Nat)

variable {α β : Type*}

def shift (d : Nat) (offsets : List (α × Nat)) : List (α × Nat) :=
  offsets.map (Prod.map id (· + d))

theorem mem_shift {d : Nat} {offsets : List (α × Nat)} {p : α × Nat} :
    p ∈ shift d offsets ↔ ∃ n, (p.1, n) ∈ offsets ∧ n + d = p.2 := by
  rw [shift, List.mem_map]
  constructor
  · rintro ⟨⟨a, n⟩, hmem, rfl⟩
    exact ⟨n, hmem, rfl⟩
  · rintro ⟨n, hmem, hsum⟩
    exact ⟨(p.1, n), hmem, Prod.ext rfl hsum⟩

def placeAt : List Nat → List (Laid α) → List (α × Nat)
  | d :: ds, x :: xs => shift d x.offsets ++ placeAt ds xs
  | _, _ => []

namespace Laid

def map (f : α → β) (x : Laid α) : Laid β := ⟨x.box, x.offsets.map (Prod.map f id)⟩

def seq (xs : List (Laid α)) : Laid α :=
  ⟨structBox (xs.map box), placeAt (starts 0 (xs.map box)) xs⟩

def overlay (xs : List (Laid α)) : Laid α :=
  ⟨unionBox (xs.map box), xs.flatMap offsets⟩

def names (x : Laid α) : List α := x.offsets.map Prod.fst

theorem names_map (f : α → β) (x : Laid α) : (x.map f).names = x.names.map f := by
  simp only [names, map, List.map_map]
  rfl

theorem names_overlay (xs : List (Laid α)) : (overlay xs).names = xs.flatMap names := by
  rw [names, overlay, List.map_flatMap]
  rfl

theorem map_fst_placeAt {ds : List Nat} {xs : List (Laid α)} (hlength : ds.length = xs.length) :
    (placeAt ds xs).map Prod.fst = xs.flatMap names := by
  induction xs generalizing ds with
  | nil =>
      rw [List.length_eq_zero_iff.mp hlength]
      rfl
  | cons x xs ih =>
      obtain ⟨d, ds, rfl⟩ := List.exists_cons_of_length_eq_add_one hlength
      rw [placeAt, List.map_append, ih (Nat.succ.inj hlength), List.flatMap_cons, names, shift,
        List.map_map]
      rfl

theorem names_seq (xs : List (Laid α)) : (seq xs).names = xs.flatMap names :=
  map_fst_placeAt (by rw [length_starts, List.length_map])

/-- The offset of what goes by the key. -/
def offsetAt {κ : Type*} [DecidableEq κ] (key : α → κ) (x : Laid α) (k : κ) : Nat :=
  ((x.offsets.find? fun p => key p.1 = k).map Prod.snd).getD 0

theorem offsetAt_of_mem {κ : Type*} [DecidableEq κ] {key : α → κ} {x : Laid α}
    (hnodup : (x.names.map key).Nodup) {p : α × Nat} (hp : p ∈ x.offsets) :
    x.offsetAt key (key p.1) = p.2 := by
  obtain ⟨box, offsets⟩ := x
  unfold names offsetAt at *
  simp only at hnodup hp ⊢
  clear box
  induction offsets with
  | nil => cases hp
  | cons q offsets ih =>
      obtain ⟨hq, hnodup⟩ := List.nodup_cons.mp hnodup
      rcases List.mem_cons.mp hp with rfl | hrest
      · simp
      · have hne : key q.1 ≠ key p.1 := by
          intro heq
          exact hq (heq ▸ List.mem_map_of_mem (List.mem_map_of_mem hrest))
        rw [List.find?_cons_of_neg (by simpa using hne)]
        exact ih hnodup hrest

end Laid

/-- The first thing is at the beginning. -/
def Founded (x : Laid α) : Prop := x.offsets.head?.map Prod.snd = some 0

theorem Founded.map {x : Laid α} (hx : Founded x) (f : α → β) : Founded (x.map f) := by
  unfold Founded Laid.map at *
  rw [List.head?_map, Option.map_map, ← hx]
  rfl

theorem head?_placeAt {x : Laid α} (hx : Founded x) (d : Nat) (ds : List Nat)
    (xs : List (Laid α)) : (placeAt (d :: ds) (x :: xs)).head?.map Prod.snd = some d := by
  obtain ⟨⟨a, n⟩, hhead, hn⟩ := Option.map_eq_some_iff.mp hx
  obtain rfl : n = 0 := hn
  rw [placeAt, List.head?_append, shift, List.head?_map, hhead]
  simp

theorem Founded.seq {x : Laid α} (hx : Founded x) (xs : List (Laid α)) :
    Founded (Laid.seq (x :: xs)) := by
  rw [Founded, Laid.seq, List.map_cons, starts, roundUp_zero x.box.align_pos]
  exact head?_placeAt hx 0 _ xs

theorem Founded.overlay {x : Laid α} (hx : Founded x) (xs : List (Laid α)) :
    Founded (Laid.overlay (x :: xs)) := by
  obtain ⟨p, hhead, hp⟩ := Option.map_eq_some_iff.mp hx
  unfold Founded Laid.overlay
  rw [List.flatMap_cons, List.head?_append, hhead]
  exact congrArg some hp

section Bounds

/-- Everything is placed inside the box. -/
def Laid.Inside (x : Laid α) : Prop := ∀ p ∈ x.offsets, p.2 < x.box.size

/-- What is placed from `n` on is found between `n` and the end. -/
theorem bounds_of_mem_placeAt {xs : List (Laid α)} (hxs : ∀ x ∈ xs, x.Inside) {n : Nat}
    {p : α × Nat} (hp : p ∈ placeAt (starts n (xs.map Laid.box)) xs) :
    n ≤ p.2 ∧ p.2 < endAfter n (xs.map Laid.box) := by
  induction xs generalizing n with
  | nil => cases hp
  | cons x xs ih =>
      obtain ⟨hx, hrest⟩ := List.forall_mem_cons.mp hxs
      have hround := le_roundUp x.box.align_pos n
      rw [List.map_cons, endAfter]
      rw [List.map_cons, starts, placeAt] at hp
      rcases List.mem_append.mp hp with hhere | hlater
      · obtain ⟨i, hi, hsum⟩ := mem_shift.mp hhere
        have hinside : i < x.box.size := hx _ hi
        have hend := le_endAfter (roundUp n x.box.align + x.box.size) (xs.map Laid.box)
        omega
      · obtain ⟨hstart, hend⟩ := ih hrest hlater
        exact ⟨by omega, hend⟩

theorem Laid.Inside.seq {xs : List (Laid α)} (hxs : ∀ x ∈ xs, x.Inside) : (Laid.seq xs).Inside :=
  fun _ hp => (bounds_of_mem_placeAt hxs hp).2.trans_le (le_structBox _)

theorem Laid.Inside.overlay {xs : List (Laid α)} (hxs : ∀ x ∈ xs, x.Inside) :
    (Laid.overlay xs).Inside := by
  intro p hp
  obtain ⟨x, hx, hmem⟩ := List.mem_flatMap.mp hp
  exact (hxs x hx p hmem).trans_le (le_unionBox (List.mem_map_of_mem hx))

theorem Laid.Inside.map {x : Laid α} (hx : x.Inside) (f : α → β) : (x.map f).Inside := by
  intro p hp
  obtain ⟨q, hq, rfl⟩ := List.mem_map.mp hp
  exact hx q hq

end Bounds

section Pairs

/-- Both things are placed, at offsets so related. -/
def PlacedAt (r : Nat → Nat → Prop) (offsets : List (α × Nat)) (pair : α × α) : Prop :=
  ∃ n m, (pair.1, n) ∈ offsets ∧ (pair.2, m) ∈ offsets ∧ r n m

variable {r : Nat → Nat → Prop}

theorem PlacedAt.mono {offsets more : List (α × Nat)} {pair : α × α} (h : PlacedAt r offsets pair)
    (hsubset : offsets ⊆ more) : PlacedAt r more pair := by
  obtain ⟨n, m, hn, hm, hr⟩ := h
  exact ⟨n, m, hsubset hn, hsubset hm, hr⟩

theorem PlacedAt.map {x : Laid α} {pair : α × α} (h : PlacedAt r x.offsets pair) (f : α → β) :
    PlacedAt r (x.map f).offsets (Prod.map f f pair) := by
  obtain ⟨n, m, hn, hm, hr⟩ := h
  exact ⟨n, m, List.mem_map_of_mem (f := Prod.map f id) hn,
    List.mem_map_of_mem (f := Prod.map f id) hm, hr⟩

theorem PlacedAt.flatMap {xs : List (Laid α)} {x : Laid α} (hx : x ∈ xs) {pair : α × α}
    (h : PlacedAt r x.offsets pair) : PlacedAt r (xs.flatMap Laid.offsets) pair :=
  h.mono fun _ hp => List.mem_flatMap.mpr ⟨x, hx, hp⟩

theorem exists_shift_subset {xs : List (Laid α)} {x : Laid α} (hx : x ∈ xs) {ds : List Nat}
    (hlength : ds.length = xs.length) : ∃ d, shift d x.offsets ⊆ placeAt ds xs := by
  induction xs generalizing ds with
  | nil => cases hx
  | cons y xs ih =>
      obtain ⟨d, ds, rfl⟩ := List.exists_cons_of_length_eq_add_one hlength
      rw [placeAt]
      rcases List.mem_cons.mp hx with rfl | hrest
      · exact ⟨d, List.subset_append_left _ _⟩
      · obtain ⟨e, he⟩ := ih hrest (Nat.succ.inj hlength)
        exact ⟨e, List.Subset.trans he (List.subset_append_right _ _)⟩

/-- A relation that moving both does not change is kept by the struct around them. -/
theorem PlacedAt.seq (hr : ∀ d n m, r n m → r (n + d) (m + d)) {xs : List (Laid α)} {x : Laid α}
    (hx : x ∈ xs) {pair : α × α} (h : PlacedAt r x.offsets pair) :
    PlacedAt r (Laid.seq xs).offsets pair := by
  obtain ⟨n, m, hn, hm, hrelated⟩ := h
  have hlength : (starts 0 (xs.map Laid.box)).length = xs.length := by
    rw [length_starts, List.length_map]
  obtain ⟨d, hsubset⟩ := exists_shift_subset hx hlength
  exact ⟨n + d, m + d, hsubset (mem_shift.mpr ⟨n, hn, rfl⟩), hsubset (mem_shift.mpr ⟨m, hm, rfl⟩),
    hr d n m hrelated⟩

theorem exists_mem_placeAt {xs : List (Laid α)} {a : α} (ha : a ∈ xs.flatMap Laid.names) (n : Nat) :
    ∃ m, (a, m) ∈ placeAt (starts n (xs.map Laid.box)) xs := by
  have hlength : (starts n (xs.map Laid.box)).length = xs.length := by
    rw [length_starts, List.length_map]
  rw [← Laid.map_fst_placeAt hlength] at ha
  obtain ⟨⟨a, m⟩, hmem, rfl⟩ := List.mem_map.mp ha
  exact ⟨m, hmem⟩

theorem placedAt_lt {xs : List (Laid α)} (hxs : ∀ x ∈ xs, x.Inside) (n : Nat) {pair : α × α}
    (hpair : pair ∈ crossPairs (xs.map Laid.names)) :
    PlacedAt (· < ·) (placeAt (starts n (xs.map Laid.box)) xs) pair := by
  induction xs generalizing n with
  | nil => cases hpair
  | cons x xs ih =>
      obtain ⟨hx, hrest⟩ := List.forall_mem_cons.mp hxs
      rw [List.map_cons, starts, placeAt]
      rw [List.map_cons, crossPairs, List.mem_append] at hpair
      rcases hpair with hcross | hlater
      · obtain ⟨hfirst, hsecond⟩ := List.mem_product.mp hcross
        obtain ⟨⟨a, i⟩, hi, rfl⟩ := List.mem_map.mp hfirst
        rw [← List.flatMap_def] at hsecond
        obtain ⟨m, hm⟩ := exists_mem_placeAt hsecond (roundUp n x.box.align + x.box.size)
        have hinside : i < x.box.size := hx _ hi
        have hafter := (bounds_of_mem_placeAt hrest hm).1
        refine ⟨i + roundUp n x.box.align, m, ?_, List.mem_append_right _ hm, by omega⟩
        exact List.mem_append_left _ (mem_shift.mpr ⟨i, hi, rfl⟩)
      · exact (ih hrest _ hlater).mono (List.subset_append_right _ _)

/-- In a struct, what different members hold is found at different offsets. -/
theorem placedAt_ne {xs : List (Laid α)} (hxs : ∀ x ∈ xs, x.Inside) {pair : α × α}
    (hpair : pair ∈ crossPairs (xs.map Laid.names)) :
    PlacedAt (· ≠ ·) (Laid.seq xs).offsets pair := by
  obtain ⟨n, m, hn, hm, hlt⟩ := placedAt_lt hxs 0 hpair
  exact ⟨n, m, hn, hm, hlt.ne⟩

end Pairs

section Classes

variable (box : CType → Box)

mutual

/-- The layout of the members of a class, each by itself. -/
def layAll : List Member → List (Laid Field)
  | [] => []
  | m :: ms => lay m :: layAll ms
termination_by structural ms => ms

def lay : Member → Laid Field
  | .field type name => ⟨box type, [(⟨[name], type⟩, 0)]⟩
  | .union ms => .overlay (layAll ms)
  | .struct ms name => (Laid.seq (layAll ms)).map (Field.under name)
termination_by structural m => m

end

theorem layAll_append (ms more : List Member) :
    layAll box (ms ++ more) = layAll box ms ++ layAll box more := by
  induction ms with
  | nil => rfl
  | cons m ms ih => rw [List.cons_append, layAll, ih, layAll, List.cons_append]

mutual

theorem names_layAll : ∀ ms : List Member, (layAll box ms).flatMap Laid.names = fields ms
  | [] => rfl
  | m :: ms => by
      rw [layAll, List.flatMap_cons, names_lay m, names_layAll ms, fields]

theorem names_lay : ∀ m : Member, (lay box m).names = memberFields m
  | .field _ _ => rfl
  | .union ms => by
      rw [lay, Laid.names_overlay, names_layAll ms, memberFields]
  | .struct ms name => by
      rw [lay, Laid.names_map, Laid.names_seq, names_layAll ms, memberFields]

end

mutual

theorem inside_layAll : ∀ (ms : List Member), ∀ x ∈ layAll box ms, x.Inside
  | [], _, hx => absurd hx List.not_mem_nil
  | m :: ms, x, hx => by
      rcases List.mem_cons.mp hx with rfl | hrest
      · exact inside_lay m
      · exact inside_layAll ms x hrest

theorem inside_lay : ∀ m : Member, (lay box m).Inside
  | .field type _ => List.forall_mem_singleton.mpr (box type).size_pos
  | .union ms => Laid.Inside.overlay (inside_layAll ms)
  | .struct ms _ => (Laid.Inside.seq (inside_layAll ms)).map _

end

end Classes

end CloudabiCpp.Lib.Placement

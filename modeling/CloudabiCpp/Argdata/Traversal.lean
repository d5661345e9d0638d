import CloudabiCpp.Argdata.Independence

/-!
`for` loops over the maps and sequences of `argdata.hpp`. Any number of loops
run over one container, one turn at a time in any order: a turn constructs the
iterators of its loop, or compares, reads and advances, or leaves the loop.
Loops that are left give their storage back.
-/

namespace CloudabiCpp.Argdata.Traversal

open CloudabiCpp.Lib.Blocks
open CloudabiCpp.Lib.LiveObjects
open CloudabiCpp.Lib.Runs
open CloudabiCpp.Argdata.Cursor
open CloudabiCpp.Argdata.Iterator
open CloudabiCpp.Argdata.IteratorStore
open CloudabiCpp.Argdata.Independence

variable {ι C V : Type}

inductive LoopVar where
  | it
  | stop
  deriving DecidableEq

/-- What the body of a loop sees at one entry: the pointers of `*it`, and the
argdata they point to. -/
abbrev Visit (ι V : Type) := ι → Nat × V

inductive Phase (ι V : Type) where
  | initial
  | running (log : List (Visit ι V))
  | done (log : List (Visit ι V))

structure Loops (ι C V : Type) where
  store : Store ι C
  phase : Nat → Phase ι V

variable {lib : Library ι C V}

/-- One turn of a loop whose iterators are at the addresses `slot`: what becomes of
them, and of the loop, whose body sees `visit` at `*it`.
`for (auto it = c.begin(), stop = c.end(); it != stop; ++it) visit(*it);` -/
def loopTurn [Fintype ι] (copyConstruct : CopyConstructor ι C) (K : Container lib)
    (slot : LoopVar → Nat) (bytes : C) (visit : Visit ι V) (s : Store ι C) :
    Phase ι V → Store ι C × Phase ι V
  | .initial =>
      ((s.exec copyConstruct K (.begin (slot .it))).exec copyConstruct K
        (.default (slot .stop) bytes), .running [])
  | .running log =>
      if CachedIterator.equal (s.obj (slot .it)) (s.obj (slot .stop)) then
        ((s.exec copyConstruct K (.destroy (slot .stop))).exec copyConstruct K
          (.destroy (slot .it)), .done log)
      else
        (s.exec copyConstruct K (.increment (slot .it)), .running (log ++ [visit]))
  | .done log => (s, .done log)

/-- What the body of loop `l` sees at `*it`. -/
def current (lib : Library ι C V) (slot : Nat → LoopVar → Nat) (t : Loops ι C V) (l : Nat) :
    Visit ι V :=
  let it := t.store.obj (slot l .it)
  fun i => (it.value i, t.store.read lib (it.value i))

/-- One turn of loop `l`, whose iterators are at the addresses `slot l`. -/
def turn [Fintype ι] (copyConstruct : CopyConstructor ι C) (K : Container lib)
    (slot : Nat → LoopVar → Nat) (bytes : C) (t : Loops ι C V) (l : Nat) : Loops ι C V :=
  let next := loopTurn copyConstruct K (slot l) bytes (current lib slot t l) t.store (t.phase l)
  { store := next.1
    phase := Function.update t.phase l next.2 }

def notStarted (bytes : Nat → CachedIterator ι C) : Loops ι C V where
  store := noObjects bytes
  phase := fun _ => .initial

/-- A loop that is entered has storage for its two iterators, apart from the
iterators of the loops that are still running. -/
def StorageFree (K : Container lib) (slot : Nat → LoopVar → Nat) (t : Loops ι C V) (l : Nat) :
    Prop :=
  t.phase l = .initial →
    (∀ v, slot l v ≠ 0 ∧ K.ClearOf (slot l v)) ∧
      Apart lib.size (slot l .it) (slot l .stop) ∧
      ∀ m log, t.phase m = .running log → ∀ v w, Apart lib.size (slot l v) (slot m w)

/-- The entries as a loop whose iterator is at `base` should see them. -/
def visits (K : Container lib) (base : Nat) : List (Visit ι V) :=
  K.entries.mapIdx fun k e i =>
    ((e i).pointer base, lib.content (lib.drawn K.start (k + 1)) (e i))

def phaseAfter (K : Container lib) (base : Nat) : Nat → Phase ι V
  | 0 => .initial
  | turns + 1 =>
      if turns ≤ K.entries.length then .running ((visits K base).take turns)
      else .done (visits K base)

/-- Every loop over the container sees exactly its entries, in order, whatever
the other loops do. -/
def VisitsInOrder [Fintype ι] (copyConstruct : CopyConstructor ι C)
    (K : Container lib) : Prop :=
  ∀ (memory : Nat → CachedIterator ι C) (bytes : C) (slot : Nat → LoopVar → Nat)
    (schedule : List Nat),
    Along (turn copyConstruct K slot bytes) (StorageFree K slot) (notStarted memory) schedule →
      ∀ l, (run (turn copyConstruct K slot bytes) (notStarted memory) schedule).phase l =
        phaseAfter K (slot l .it) (schedule.count l)

theorem visits_getElem? (K : Container lib) (base k : Nat) :
    (visits K base)[k]? = K.entries[k]?.map fun e i =>
      ((e i).pointer base, lib.content (lib.drawn K.start (k + 1)) (e i)) := by
  simp [visits]

@[simp] theorem visits_length (K : Container lib) (base : Nat) :
    (visits K base).length = K.entries.length := by
  simp [visits]

/-- The loop has been entered and not left. -/
def InLoop (K : Container lib) (turns : Nat) : Prop :=
  0 < turns ∧ turns ≤ K.entries.length + 1

theorem running_of_inLoop {K : Container lib} {turns : Nat} (hturns : InLoop K turns)
    (base : Nat) : phaseAfter K base turns = .running ((visits K base).take (turns - 1)) := by
  obtain ⟨k, rfl⟩ := Nat.exists_eq_succ_of_ne_zero (Nat.ne_of_gt hturns.1)
  exact if_pos (Nat.le_of_succ_le_succ hturns.2)

/-- The iterators of a loop that has been entered and is at entry `k`. -/
structure Holds (K : Container lib) (slot : LoopVar → Nat) (s : Store ι C) (k : Nat) : Prop where
  live : ∀ v, slot v ∈ s.live
  it : CachedIterator.At K (slot .it) k (s.obj (slot .it))
  stop : ∀ i, (s.obj (slot .stop)).value i = 0

theorem Holds.frame {K : Container lib} {slot : LoopVar → Nat} {s s' : Store ι C} {k : Nat}
    (hholds : Holds K slot s k)
    (hkept : ∀ v, slot v ∈ s'.live ∧ s'.obj (slot v) = s.obj (slot v)) :
    Holds K slot s' k where
  live := fun v => (hkept v).1
  it := by
    rw [(hkept .it).2]
    exact hholds.it
  stop := by
    rw [(hkept .stop).2]
    exact hholds.stop

/-- A loop has taken one more turn. The objects that are not its own are where they
were; its own are dead before it is entered and after it is left. -/
structure Turned (K : Container lib) (slot : LoopVar → Nat) (turns : Nat) (s : Store ι C)
    (next : Store ι C × Phase ι V) : Prop where
  phase : next.2 = phaseAfter K (slot .it) (turns + 1)
  live : ∀ a ∈ next.1.live, (InLoop K (turns + 1) ∧ ∃ v, a = slot v) ∨
    a ∈ s.live ∧ (InLoop K turns → ∀ v, a ≠ slot v)
  nodup : next.1.live.Nodup
  kept : ∀ a ∈ s.live, (InLoop K turns → ∀ v, a ≠ slot v) →
    a ∈ next.1.live ∧ next.1.obj a = s.obj a
  holds : InLoop K (turns + 1) → Holds K slot next.1 turns

section OneLoop

variable [Fintype ι] {K : Container lib} {slot : LoopVar → Nat} {turns : Nat} {s : Store ι C}
  {phase : Phase ι V}

theorem turned_initial (copyConstruct : CopyConstructor ι C) (bytes : C) (visit : Visit ι V)
    (hne : slot .it ≠ slot .stop) (hnodup : s.live.Nodup) (hfresh : ∀ v, slot v ∉ s.live) :
    Turned K slot 0 s (loopTurn copyConstruct K slot bytes visit s .initial) where
  phase := rfl
  live := by
    intro a ha
    simp only [loopTurn, Store.exec, Objects.place_live, List.mem_cons] at ha
    rcases ha with rfl | rfl | ha
    · exact Or.inl ⟨⟨Nat.succ_pos _, by omega⟩, _, rfl⟩
    · exact Or.inl ⟨⟨Nat.succ_pos _, by omega⟩, _, rfl⟩
    · exact Or.inr ⟨ha, fun hzero => absurd hzero.1 (Nat.lt_irrefl 0)⟩
  nodup := by
    simp only [loopTurn, Store.exec, Objects.place_live, List.nodup_cons, List.mem_cons, not_or]
    exact ⟨⟨hne.symm, hfresh .stop⟩, hfresh .it, hnodup⟩
  kept := by
    intro a ha _
    have hother : ∀ v, a ≠ slot v := by
      rintro v rfl
      exact hfresh v ha
    simp [loopTurn, Store.exec, Objects.place_obj_of_ne _ _ (hother .stop),
      Objects.place_obj_of_ne _ _ (hother .it), ha]
  holds := by
    refine fun _ => ⟨fun v => ?_, ?_, fun i => ?_⟩
    · cases v <;> simp [loopTurn, Store.exec]
    · simp only [loopTurn, Store.exec, Objects.place_obj_of_ne _ _ hne, Objects.place_obj_self]
      exact CachedIterator.begin_at K _
    · simp [loopTurn, Store.exec, CachedIterator.default]

/-- The loop condition: `it != stop` fails exactly past the end. -/
theorem Holds.equal_stop_iff [Nonempty ι] {k : Nat} (hholds : Holds K slot s k)
    (hnonnull : slot .it ≠ 0) :
    CachedIterator.equal (s.obj (slot .it)) (s.obj (slot .stop)) = true ↔
      K.entries.length ≤ k := by
  rw [CachedIterator.equal_iff, ← K.pointer_eq_null_iff hnonnull k]
  constructor
  · intro hvalue i
    rw [← hholds.it.value, hvalue, hholds.stop]
  · intro hnull i
    rw [hholds.it.value, hnull, hholds.stop]

variable [Nonempty ι]

theorem turned_running (copyConstruct : CopyConstructor ι C) (bytes : C) {visit : Visit ι V}
    {k : Nat} (hk : k < K.entries.length) (hnonnull : slot .it ≠ 0) (hne : slot .it ≠ slot .stop)
    (hnodup : s.live.Nodup) (hholds : Holds K slot s k)
    (hvisit : (visits K (slot .it))[k]? = some visit) :
    Turned K slot (k + 1) s
      (loopTurn copyConstruct K slot bytes visit s (.running ((visits K (slot .it)).take k))) := by
  have hequal : ¬ CachedIterator.equal (s.obj (slot .it)) (s.obj (slot .stop)) = true := by
    rw [hholds.equal_stop_iff hnonnull]
    omega
  have hnext : InLoop K (k + 1 + 1) := ⟨Nat.succ_pos _, by omega⟩
  simp only [loopTurn, hequal, if_false, Bool.false_eq_true]
  refine ⟨?_, fun a ha => ?_, hnodup, fun a ha hother => ?_, fun _ => ⟨hholds.live, ?_, ?_⟩⟩
  · rw [running_of_inLoop hnext, Nat.add_sub_cancel, List.take_add_one, hvisit,
      Option.toList_some]
  · by_cases hslot : ∃ v, a = slot v
    · exact Or.inl ⟨hnext, hslot⟩
    · exact Or.inr ⟨ha, fun _ => not_exists.mp hslot⟩
  · have hit : a ≠ slot .it := hother ⟨Nat.succ_pos _, by omega⟩ .it
    exact ⟨ha, Objects.put_obj_of_ne _ _ hit⟩
  · rw [Store.exec, Objects.put_obj_self]
    exact hholds.it.increment
  · rw [Store.exec, Objects.put_obj_of_ne _ _ hne.symm]
    exact hholds.stop

theorem turned_leaving (copyConstruct : CopyConstructor ι C) (bytes : C) (visit : Visit ι V)
    (hnonnull : slot .it ≠ 0) (hnodup : s.live.Nodup)
    (hholds : Holds K slot s K.entries.length) :
    Turned K slot (K.entries.length + 1) s
      (loopTurn copyConstruct K slot bytes visit s (.running (visits K (slot .it)))) := by
  have hequal := (hholds.equal_stop_iff hnonnull).mpr (Nat.le_refl _)
  have hleft : ¬ InLoop K (K.entries.length + 1 + 1) := by
    rintro ⟨-, hle⟩
    omega
  simp only [loopTurn, hequal, if_true]
  refine ⟨?_, fun a ha => ?_, (hnodup.erase _).erase _, fun a ha hother => ⟨?_, rfl⟩,
    fun h => absurd h hleft⟩
  · exact (if_neg (by omega)).symm
  · simp only [Store.exec, Objects.remove_live] at ha
    obtain ⟨hit, ha⟩ := (hnodup.erase _).mem_erase_iff.mp ha
    obtain ⟨hstop, ha⟩ := hnodup.mem_erase_iff.mp ha
    refine Or.inr ⟨ha, fun _ v => ?_⟩
    cases v
    · exact hit
    · exact hstop
  · have hslots := hother ⟨Nat.succ_pos _, Nat.le_refl _⟩
    rw [Store.exec, Objects.remove_live, List.mem_erase_of_ne (hslots .it), Store.exec,
      Objects.remove_live, List.mem_erase_of_ne (hslots .stop)]
    exact ha

omit [Nonempty ι] in
theorem turned_done (copyConstruct : CopyConstructor ι C) (bytes : C) (visit : Visit ι V)
    (hturns : K.entries.length + 1 < turns) (hnodup : s.live.Nodup) :
    Turned K slot turns s
      (loopTurn copyConstruct K slot bytes visit s (.done (visits K (slot .it)))) := by
  have hleft : ∀ n, turns ≤ n → ¬ InLoop K n := by
    rintro n hn ⟨-, hle⟩
    omega
  refine ⟨(if_neg (by omega)).symm, fun a ha => ?_, hnodup, fun a ha _ => ⟨ha, rfl⟩,
    fun h => absurd h (hleft _ (Nat.le_succ _))⟩
  exact Or.inr ⟨ha, fun h => absurd h (hleft _ (Nat.le_refl _))⟩

/-- Whatever phase the loop is in, its turn is the next one. -/
theorem turned_loopTurn (copyConstruct : CopyConstructor ι C) (bytes : C) {visit : Visit ι V}
    (hphase : phase = phaseAfter K (slot .it) turns) (hnodup : s.live.Nodup)
    (hfresh : turns = 0 → ∀ v, slot v ∉ s.live)
    (hslots : turns ≤ K.entries.length + 1 → slot .it ≠ 0 ∧ slot .it ≠ slot .stop)
    (hholds : InLoop K turns → Holds K slot s (turns - 1))
    (hvisit : InLoop K turns → turns - 1 < K.entries.length →
      (visits K (slot .it))[turns - 1]? = some visit) :
    Turned K slot turns s (loopTurn copyConstruct K slot bytes visit s phase) := by
  cases turns with
  | zero =>
      obtain ⟨-, hne⟩ := hslots (Nat.zero_le _)
      rw [hphase]
      exact turned_initial copyConstruct bytes visit hne hnodup (hfresh rfl)
  | succ k =>
      rcases Nat.lt_trichotomy k K.entries.length with hlt | rfl | hgt
      · have hl : InLoop K (k + 1) := ⟨Nat.succ_pos _, by omega⟩
        obtain ⟨hnonnull, hne⟩ := hslots hl.2
        rw [hphase, running_of_inLoop hl, Nat.add_sub_cancel]
        exact turned_running copyConstruct bytes hlt hnonnull hne hnodup (hholds hl)
          (hvisit hl hlt)
      · have hl : InLoop K (K.entries.length + 1) := ⟨Nat.succ_pos _, Nat.le_refl _⟩
        rw [hphase, running_of_inLoop hl, List.take_of_length_le (by rw [visits_length]; rfl)]
        exact turned_leaving copyConstruct bytes visit (hslots hl.2).1 hnodup (hholds hl)
      · rw [hphase, phaseAfter, if_neg (by omega)]
        exact turned_done copyConstruct bytes visit (by omega) hnodup

end OneLoop

/-- Storage for both iterators of a loop. -/
def SlotsPlaced (K : Container lib) (slot : LoopVar → Nat) : Prop :=
  (∀ v, slot v ≠ 0 ∧ K.ClearOf (slot v)) ∧ Apart lib.size (slot .it) (slot .stop)

structure LoopsAt (K : Container lib) (slot : Nat → LoopVar → Nat) (turns : Nat → Nat)
    (t : Loops ι C V) : Prop where
  phase : ∀ l, t.phase l = phaseAfter K (slot l .it) (turns l)
  live : ∀ a ∈ t.store.live, ∃ l v, InLoop K (turns l) ∧ a = slot l v
  nodup : t.store.live.Nodup
  holds : ∀ l, InLoop K (turns l) → Holds K (slot l) t.store (turns l - 1)
  placed : ∀ l, InLoop K (turns l) → SlotsPlaced K (slot l)
  beside : ∀ l m, l ≠ m → InLoop K (turns l) → InLoop K (turns m) →
    ∀ v w, Apart lib.size (slot l v) (slot m w)

section Turns

variable {K : Container lib} {slot : Nat → LoopVar → Nat} {turns : Nat → Nat}
  {t : Loops ι C V} {l : Nat}

theorem LoopsAt.apart (hloops : LoopsAt K slot turns t) :
    t.store.live.Pairwise (Apart lib.size) := by
  refine hloops.nodup.pairwise_of_forall_ne ?_
  intro a ha b hb hne
  obtain ⟨l, v, hl, rfl⟩ := hloops.live a ha
  obtain ⟨m, w, hm, rfl⟩ := hloops.live b hb
  rcases eq_or_ne l m with rfl | hlm
  · have hown := (hloops.placed l hl).2
    cases v <;> cases w
    · exact absurd rfl hne
    · exact hown
    · exact apart_symm hown
    · exact absurd rfl hne
  · exact hloops.beside l m hlm hl hm v w

theorem LoopsAt.clear (hloops : LoopsAt K slot turns t) :
    ∀ a ∈ t.store.live, K.ClearOf a := by
  intro a ha
  obtain ⟨l, v, hl, rfl⟩ := hloops.live a ha
  exact ((hloops.placed l hl).1 v).2

/-- The body of the loop sees the entry that it is at. -/
theorem LoopsAt.visits_current (hloops : LoopsAt K slot turns t) (hl : InLoop K (turns l))
    (hk : turns l - 1 < K.entries.length) :
    (visits K (slot l .it))[turns l - 1]? = some (current lib slot t l) := by
  have hentry := List.getElem?_eq_getElem hk
  obtain ⟨hlive, hit, -⟩ := hloops.holds l hl
  rw [visits_getElem?, hentry, Option.map_some]
  congr 1
  funext i
  simp only [current]
  rw [read_at hloops.apart hloops.clear (hlive .it) hit hentry, hit.value,
    Container.pointer_of_entry hentry]

/-- After a turn of loop `l`, only the pairs that it is in are new. -/
theorem forall_pairs_update {L : Type*} [DecidableEq L] {entered : L → Nat → Prop}
    {R : L → L → Prop} {turns : L → Nat} {l : L} {n : Nat} (hsymm : ∀ j m, R j m → R m j)
    (hpairs : ∀ j m, j ≠ m → entered j (turns j) → entered m (turns m) → R j m)
    (hself : entered l n → ∀ m, m ≠ l → entered m (turns m) → R l m) (j m : L) (hne : j ≠ m)
    (hj : entered j (Function.update turns l n j))
    (hm : entered m (Function.update turns l n m)) : R j m := by
  rcases eq_or_ne j l with rfl | hjl
  · rw [Function.update_self] at hj
    rw [Function.update_of_ne hne.symm] at hm
    exact hself hj m hne.symm hm
  · rw [Function.update_of_ne hjl] at hj
    rcases eq_or_ne m l with rfl | hml
    · rw [Function.update_self] at hm
      exact hsymm m j (hself hm j hjl hj)
    · rw [Function.update_of_ne hml] at hm
      exact hpairs j m hne hj hm

/-- Loop `l` has taken a turn, and the others are where they were. -/
theorem LoopsAt.turned (hloops : LoopsAt K slot turns t) {next : Store ι C × Phase ι V}
    (hturned : Turned K (slot l) (turns l) t.store next)
    (hplaced : InLoop K (turns l + 1) → SlotsPlaced K (slot l))
    (hbeside : turns l ≤ K.entries.length + 1 → ∀ m, m ≠ l → InLoop K (turns m) →
      ∀ v w, Apart lib.size (slot l v) (slot m w)) :
    LoopsAt K slot (Function.update turns l (turns l + 1))
      { store := next.1, phase := Function.update t.phase l next.2 } where
  phase := by
    intro m
    rcases eq_or_ne m l with rfl | hm
    · simpa using hturned.phase
    · simpa [hm] using hloops.phase m
  live := by
    intro a ha
    rcases hturned.live a ha with ⟨hl, v, rfl⟩ | ⟨ha, hother⟩
    · exact ⟨l, v, by rwa [Function.update_self], rfl⟩
    · obtain ⟨m, v, hm, rfl⟩ := hloops.live a ha
      refine ⟨m, v, ?_, rfl⟩
      rw [Function.update_of_ne]
      · exact hm
      · rintro rfl
        exact hother hm v rfl
  nodup := hturned.nodup
  holds := by
    intro m hm
    rcases eq_or_ne m l with rfl | hml
    · rw [Function.update_self] at hm ⊢
      exact hturned.holds hm
    · rw [Function.update_of_ne hml] at hm ⊢
      refine (hloops.holds m hm).frame fun v => ?_
      refine hturned.kept _ ((hloops.holds m hm).live v) fun hl w => ?_
      exact ne_of_apart lib.size_pos (hloops.beside m l hml hm hl v w)
  placed := (Function.forall_update_iff turns fun m n => InLoop K n → SlotsPlaced K (slot m)).mpr
    ⟨hplaced, fun m _ => hloops.placed m⟩
  beside := by
    refine forall_pairs_update ?_ hloops.beside ?_
    · exact fun j m happart v w => apart_symm (happart w v)
    · exact fun hl => hbeside (Nat.le_of_succ_le hl.2)

/-- A loop that may take a turn has its storage, apart from that of the others. -/
theorem LoopsAt.storage (hloops : LoopsAt K slot turns t) (hfree : StorageFree K slot t l)
    (hturns : turns l ≤ K.entries.length + 1) :
    SlotsPlaced K (slot l) ∧ ∀ m, m ≠ l → InLoop K (turns m) →
      ∀ v w, Apart lib.size (slot l v) (slot m w) := by
  rcases Nat.eq_zero_or_pos (turns l) with hzero | hpos
  · have hinitial : t.phase l = .initial := by
      rw [hloops.phase, hzero]
      rfl
    obtain ⟨hplace, hown, hothers⟩ := hfree hinitial
    refine ⟨⟨hplace, hown⟩, fun m _ hm => ?_⟩
    exact hothers m _ ((hloops.phase m).trans (running_of_inLoop hm _))
  · have hl : InLoop K (turns l) := ⟨hpos, hturns⟩
    exact ⟨hloops.placed l hl, fun m hml hm => hloops.beside l m hml.symm hl hm⟩

theorem loopsAt_turn [Fintype ι] [Nonempty ι] (copyConstruct : CopyConstructor ι C) (bytes : C)
    (hloops : LoopsAt K slot turns t) (hfree : StorageFree K slot t l) :
    LoopsAt K slot (Function.update turns l (turns l + 1))
      (turn copyConstruct K slot bytes t l) := by
  have hstorage := hloops.storage hfree
  have hfresh : turns l = 0 → ∀ v, slot l v ∉ t.store.live := by
    intro hzero v hv
    obtain ⟨m, w, hm, hslot⟩ := hloops.live _ hv
    rcases eq_or_ne m l with rfl | hml
    · exact Nat.ne_of_gt hm.1 hzero
    · have hapart := (hstorage (by omega)).2 m hml hm v w
      exact ne_of_apart lib.size_pos hapart hslot
  have hslots : turns l ≤ K.entries.length + 1 → slot l .it ≠ 0 ∧ slot l .it ≠ slot l .stop := by
    intro hturns
    obtain ⟨hplace, hown⟩ := (hstorage hturns).1
    exact ⟨(hplace .it).1, ne_of_apart lib.size_pos hown⟩
  have hturned := turned_loopTurn copyConstruct bytes (hloops.phase l) hloops.nodup hfresh hslots
    (hloops.holds l) hloops.visits_current
  exact hloops.turned hturned (fun hl => (hstorage (Nat.le_of_succ_le hl.2)).1)
    fun hturns => (hstorage hturns).2

end Turns

theorem loopsAt_notStarted (K : Container lib) (slot : Nat → LoopVar → Nat)
    (memory : Nat → CachedIterator ι C) :
    LoopsAt K slot (fun _ => 0) (notStarted memory) := by
  have hnone : ¬ InLoop K 0 := fun hl => Nat.lt_irrefl 0 hl.1
  exact {
    phase := fun _ => rfl
    live := by simp [notStarted, noObjects]
    nodup := List.nodup_nil
    holds := fun _ hl => absurd hl hnone
    placed := fun _ hl => absurd hl hnone
    beside := fun _ _ _ hl => absurd hl hnone }

theorem count_concat {L : Type} [DecidableEq L] (schedule : List L) (l : L) :
    (fun m => (schedule ++ [l]).count m) =
      Function.update (fun m => schedule.count m) l (schedule.count l + 1) := by
  funext m
  rcases eq_or_ne m l with rfl | hm
  · simp
  · simp [hm, Ne.symm hm, List.count_append]

theorem visitsInOrder [Fintype ι] [Nonempty ι] (copyConstruct : CopyConstructor ι C)
    (K : Container lib) : VisitsInOrder copyConstruct K := by
  intro memory bytes slot schedule hfree l
  have hstep : ∀ past t l, LoopsAt K slot (fun m => past.count m) t → StorageFree K slot t l →
      LoopsAt K slot (fun m => (past ++ [l]).count m) (turn copyConstruct K slot bytes t l) := by
    intro past t l hloops hfree
    rw [count_concat]
    exact loopsAt_turn copyConstruct bytes hloops hfree
  have hinit : LoopsAt K slot (fun m => [].count m) (notStarted memory) :=
    loopsAt_notStarted K slot memory
  exact (run_history hstep hinit hfree).phase l

end CloudabiCpp.Argdata.Traversal

import CloudabiCpp.Argdata.Traversal

/-!
Loops over several maps and sequences at once, as a program that walks a nested
value has them: every loop has a container of its own. The loops take turns in any
order, and a loop that is left gives its storage to those entered later. The library
still reads nothing but the cursor that it is given.
-/

namespace CloudabiCpp.Argdata.Nesting

open CloudabiCpp.Lib.Blocks
open CloudabiCpp.Lib.LiveObjects
open CloudabiCpp.Lib.Runs
open CloudabiCpp.Argdata.Cursor
open CloudabiCpp.Argdata.Iterator
open CloudabiCpp.Argdata.IteratorStore
open CloudabiCpp.Argdata.Independence
open CloudabiCpp.Argdata.Traversal

inductive Kind where
  | map
  | seq
  deriving DecidableEq

/-- The output pointers of `argdata_map_next` and `argdata_seq_next`. -/
abbrev Kind.Output : Kind → Type
  | .map => Half
  | .seq => Unit

instance : (k : Kind) → Fintype k.Output
  | .map => inferInstanceAs (Fintype Half)
  | .seq => inferInstanceAs (Fintype Unit)

instance : (k : Kind) → Nonempty k.Output
  | .map => ⟨Half.first⟩
  | .seq => ⟨()⟩

/-- What the library does with either cursor. Outside the cursors both classes
find the same argdata. -/
structure Libraries (Cursor : Kind → Type) (V : Type) where
  iter : (k : Kind) → Library k.Output (Cursor k) V
  outer : Nat → V
  iter_outer : ∀ k, (iter k).outer = outer

variable {Cursor : Kind → Type} {V L : Type} {libs : Libraries Cursor V}

def copyConstruct (libs : Libraries Cursor V) :
    (k : Kind) → CopyConstructor k.Output (Cursor k)
  | .map => MapIterator.copyConstruct (libs.iter .map)
  | .seq => SeqIterator.copyConstruct (libs.iter .seq)

/-- `for (auto it = c.begin(), stop = c.end(); it != stop; ++it) visit(*it);`, with
the addresses of `it` and `stop`. -/
structure Loop (libs : Libraries Cursor V) where
  kind : Kind
  container : Container (libs.iter kind)
  slot : LoopVar → Nat
  bytes : Cursor kind

abbrev Memory (Cursor : Kind → Type) := (k : Kind) → Store k.Output (Cursor k)

namespace Memory

def found (libs : Libraries Cursor V) (s : Memory Cursor) (p : Nat) (k : Kind) : Option V :=
  (owner (libs.iter k).size (s k).live p).map fun a =>
    (libs.iter k).inner ((s k).obj a).it (p - a)

/-- The argdata found at an address, be it in a cursor of either class or outside. -/
def read (libs : Libraries Cursor V) (s : Memory Cursor) (p : Nat) : V :=
  ((s.found libs p .map).or (s.found libs p .seq)).getD (libs.outer p)

end Memory

structure State (loops : L → Loop libs) where
  memory : Memory Cursor
  phase : (l : L) → Phase (loops l).kind.Output V

def isInitial {ι : Type} : Phase ι V → Bool
  | .initial => true
  | _ => false

def isRunning {ι : Type} : Phase ι V → Bool
  | .running _ => true
  | _ => false

namespace State

variable [DecidableEq L] {loops : L → Loop libs}

/-- Loop `l` is in a new phase and has left these objects of its class. -/
def advance (t : State loops) (l : L)
    (objects : Store (loops l).kind.Output (Cursor (loops l).kind))
    (phase : Phase (loops l).kind.Output V) : State loops where
  memory := Function.update t.memory (loops l).kind objects
  phase := Function.update t.phase l phase

variable (t : State loops) {l : L} (objects : Store (loops l).kind.Output (Cursor (loops l).kind))
  (phase : Phase (loops l).kind.Output V)

@[simp] theorem advance_memory_self :
    (t.advance l objects phase).memory (loops l).kind = objects :=
  Function.update_self _ _ _

theorem advance_memory_of_ne {k : Kind} (hk : k ≠ (loops l).kind) :
    (t.advance l objects phase).memory k = t.memory k :=
  Function.update_of_ne hk _ _

@[simp] theorem advance_phase_self : (t.advance l objects phase).phase l = phase :=
  Function.update_self _ _ _

theorem advance_phase_of_ne {m : L} (hm : m ≠ l) :
    (t.advance l objects phase).phase m = t.phase m :=
  Function.update_of_ne hm _ _

theorem advance_kept {k : Kind} {a : Nat} (ha : a ∈ (t.memory k).live)
    (hkept : a ∈ (t.memory (loops l).kind).live →
      a ∈ objects.live ∧ objects.obj a = (t.memory (loops l).kind).obj a) :
    a ∈ ((t.advance l objects phase).memory k).live ∧
      ((t.advance l objects phase).memory k).obj a = (t.memory k).obj a := by
  rcases eq_or_ne k (loops l).kind with rfl | hk
  · rw [advance_memory_self]
    exact hkept ha
  · rw [advance_memory_of_ne _ _ _ hk]
    exact ⟨ha, rfl⟩

end State

/-- What the body of loop `l` sees at `*it`. -/
def current {loops : L → Loop libs} (t : State loops) (l : L) :
    Visit (loops l).kind.Output V :=
  let it := (t.memory (loops l).kind).obj ((loops l).slot .it)
  fun i => (it.value i, t.memory.read libs (it.value i))

/-- One turn of loop `l`: it is entered, or compares, reads and advances, or is
left. -/
def turn [DecidableEq L] (loops : L → Loop libs) (t : State loops) (l : L) : State loops :=
  let next := loopTurn (copyConstruct libs (loops l).kind) (loops l).container (loops l).slot
    (loops l).bytes (current t l) (t.memory (loops l).kind) (t.phase l)
  t.advance l next.1 next.2

def notStarted (loops : L → Loop libs)
    (bytes : (k : Kind) → Nat → CachedIterator k.Output (Cursor k)) : State loops where
  memory := fun k => noObjects (bytes k)
  phase := fun _ => .initial

instance : Fintype LoopVar where
  elems := {.it, .stop}
  complete := fun v => by cases v <;> decide

namespace Loop

def size (f : Loop libs) : Nat := (libs.iter f.kind).size

/-- The iterators of `g` cover no entry that `f` finds outside. -/
def ClearOf (f g : Loop libs) : Prop :=
  ∀ e ∈ f.container.entries, ∀ i v, (e i).ClearOf g.size (g.slot v)

def Placed (f : Loop libs) : Prop :=
  (∀ v, f.slot v ≠ 0) ∧ Apart f.size (f.slot .it) (f.slot .stop) ∧ f.ClearOf f

/-- The loops can run at the same time. -/
def Beside (f g : Loop libs) : Prop :=
  (∀ v w, Separate f.size g.size (f.slot v) (g.slot w)) ∧ f.ClearOf g ∧ g.ClearOf f

instance (f g : Loop libs) : Decidable (f.ClearOf g) :=
  inferInstanceAs (Decidable (∀ e ∈ f.container.entries, ∀ i v, (e i).ClearOf g.size (g.slot v)))

instance (f : Loop libs) : Decidable f.Placed :=
  inferInstanceAs (Decidable (_ ∧ _ ∧ _))

instance (f g : Loop libs) : Decidable (f.Beside g) :=
  inferInstanceAs (Decidable (_ ∧ _ ∧ _))

theorem size_pos (f : Loop libs) : 0 < f.size := (libs.iter f.kind).size_pos

theorem Beside.slot_ne {f g : Loop libs} (hbeside : f.Beside g) (v w : LoopVar) :
    f.slot v ≠ g.slot w :=
  ne_of_separate f.size_pos g.size_pos (hbeside.1 v w)

theorem Placed.slot_ne {f : Loop libs} (hplaced : f.Placed) : f.slot .it ≠ f.slot .stop :=
  ne_of_apart f.size_pos hplaced.2.1

theorem Beside.symm {f g : Loop libs} (hbeside : f.Beside g) : g.Beside f :=
  ⟨fun v w => separate_symm (hbeside.1 w v), hbeside.2.2, hbeside.2.1⟩

end Loop

/-- A loop that is entered has storage for its two iterators, apart from those of
the loops that are still running and from what either finds outside. -/
def Room (loops : L → Loop libs) (t : State loops) (l : L) : Prop :=
  isInitial (t.phase l) = true →
    (loops l).Placed ∧ ∀ m, isRunning (t.phase m) = true → (loops l).Beside (loops m)

instance [Fintype L] (loops : L → Loop libs) (t : State loops) (l : L) :
    Decidable (Room loops t l) :=
  inferInstanceAs (Decidable (_ → _ ∧ ∀ _ : L, _ → _))

/-- Loop `f` has begun and is at entry `k`. -/
abbrev Loop.At (f : Loop libs) (s : Store f.kind.Output (Cursor f.kind)) (k : Nat) : Prop :=
  Holds f.container f.slot s k

structure Nested (loops : L → Loop libs) (turns : L → Nat) (t : State loops) : Prop where
  phase : ∀ l, t.phase l = phaseAfter (loops l).container ((loops l).slot .it) (turns l)
  live : ∀ k, ∀ a ∈ (t.memory k).live, ∃ l v,
    InLoop (loops l).container (turns l) ∧ (loops l).kind = k ∧ a = (loops l).slot v
  nodup : ∀ k, (t.memory k).live.Nodup
  holds : ∀ l, InLoop (loops l).container (turns l) →
    (loops l).At (t.memory (loops l).kind) (turns l - 1)
  placed : ∀ l, InLoop (loops l).container (turns l) → (loops l).Placed
  beside : ∀ l m, l ≠ m → InLoop (loops l).container (turns l) →
    InLoop (loops m).container (turns m) → (loops l).Beside (loops m)

section Reading

variable {loops : L → Loop libs} {turns : L → Nat} {t : State loops}

theorem Nested.separate (hnested : Nested loops turns t) {l m : L} {v w : LoopVar}
    (hne : (l, v) ≠ (m, w)) (hl : InLoop (loops l).container (turns l))
    (hm : InLoop (loops m).container (turns m)) :
    Separate (loops l).size (loops m).size ((loops l).slot v) ((loops m).slot w) := by
  rcases eq_or_ne l m with rfl | hlm
  · have hown := (hnested.placed l hl).2.1
    cases v <;> cases w
    · exact absurd rfl hne
    · exact hown
    · exact apart_symm hown
    · exact absurd rfl hne
  · exact (hnested.beside l m hlm hl hm).1 v w

theorem Nested.apart (hnested : Nested loops turns t) (k : Kind) :
    (t.memory k).live.Pairwise (Apart (libs.iter k).size) := by
  refine (hnested.nodup k).pairwise_of_forall_ne ?_
  intro a ha b hb hne
  obtain ⟨l, v, hl, rfl, rfl⟩ := hnested.live k a ha
  obtain ⟨m, w, hm, hkind, rfl⟩ := hnested.live _ b hb
  have hslots : (l, v) ≠ (m, w) := by
    rintro ⟨⟩
    exact hne rfl
  have hseparate := hnested.separate hslots hl hm
  have hsize : (loops m).size = (loops l).size := by
    rw [Loop.size, hkind, Loop.size]
  rwa [hsize] at hseparate

theorem Nested.outside (hnested : Nested loops turns t) {l : L} {e : (loops l).kind.Output → Ref}
    {i : (loops l).kind.Output} {p : Nat} (hl : InLoop (loops l).container (turns l))
    (he : e ∈ (loops l).container.entries) (hi : e i = .outside p) (k : Kind) :
    ∀ a ∈ (t.memory k).live, ¬ Inside (libs.iter k).size a p := by
  intro a ha
  obtain ⟨m, w, hm, rfl, rfl⟩ := hnested.live k a ha
  have hclear : (loops l).ClearOf (loops m) := by
    rcases eq_or_ne l m with rfl | hlm
    · exact (hnested.placed l hl).2.2
    · exact (hnested.beside l m hlm hl hm).2.1
  have hentry := hclear e he i w
  rwa [hi] at hentry

theorem found_eq_none {s : Memory Cursor} {p : Nat} {k : Kind}
    (houtside : ∀ a ∈ (s k).live, ¬ Inside (libs.iter k).size a p) :
    s.found libs p k = none := by
  simp [Memory.found, owner_eq_none houtside]

theorem found_eq_some {s : Memory Cursor} {a p : Nat} {k : Kind}
    (hapart : (s k).live.Pairwise (Apart (libs.iter k).size)) (ha : a ∈ (s k).live)
    (hinside : Inside (libs.iter k).size a p) :
    s.found libs p k = some ((libs.iter k).inner ((s k).obj a).it (p - a)) := by
  simp [Memory.found, owner_eq_some hapart ha hinside]

theorem read_of_found {s : Memory Cursor} {p : Nat} {k : Kind} {x : V}
    (hfound : s.found libs p k = some x) (hothers : ∀ m, m ≠ k → s.found libs p m = none) :
    s.read libs p = x := by
  cases k with
  | map => simp [Memory.read, hfound]
  | seq => simp [Memory.read, hfound, hothers .map (by simp)]

/-- What a running loop finds at its pointers does not depend on the others. -/
theorem Nested.read (hnested : Nested loops turns t) {l : L}
    {e : (loops l).kind.Output → Ref} (hl : InLoop (loops l).container (turns l))
    (hentry : (loops l).container.entries[turns l - 1]? = some e)
    (i : (loops l).kind.Output) :
    t.memory.read libs ((e i).pointer ((loops l).slot .it)) =
      (libs.iter (loops l).kind).content
        ((libs.iter (loops l).kind).drawn (loops l).container.start (turns l - 1 + 1)) (e i) := by
  have he := List.mem_of_getElem? hentry
  have hvalid := (loops l).container.valid e he i
  obtain ⟨hlive, hit, -⟩ := hnested.holds l hl
  cases hi : e i with
  | outside p =>
      have hnone : ∀ m, t.memory.found libs p m = none :=
        fun m => found_eq_none (hnested.outside hl he hi m)
      simp [Memory.read, Ref.pointer, hnone, Library.content, libs.iter_outer]
  | inside off =>
      rw [hi] at hvalid
      have hinside : Inside (loops l).size ((loops l).slot .it) ((loops l).slot .it + off) :=
        inside_add hvalid
      have hfound := found_eq_some (hnested.apart _) (hlive .it) hinside
      rw [hit.it, Nat.add_sub_cancel_left] at hfound
      refine read_of_found hfound ?_
      intro m hm
      refine found_eq_none ?_
      intro a ha
      obtain ⟨n, w, hn, rfl, rfl⟩ := hnested.live m a ha
      have hslots : (l, LoopVar.it) ≠ (n, w) := by
        rintro ⟨⟩
        exact hm rfl
      exact not_inside_of_separate (hnested.separate hslots hl hn) hinside

theorem Nested.visits_current (hnested : Nested loops turns t) {l : L}
    (hl : InLoop (loops l).container (turns l))
    (hk : turns l - 1 < (loops l).container.entries.length) :
    (visits (loops l).container ((loops l).slot .it))[turns l - 1]? = some (current t l) := by
  have hentry := List.getElem?_eq_getElem hk
  have hit := (hnested.holds l hl).it
  rw [visits_getElem?, hentry, Option.map_some]
  congr 1
  funext i
  simp only [current]
  rw [hit.value, Container.pointer_of_entry hentry, hnested.read hl hentry]

end Reading

section Turns

variable [DecidableEq L] {loops : L → Loop libs} {turns : L → Nat} {t : State loops} {l : L}

/-- Loop `l` has taken a turn that changed its own objects, and the others are
where they were. -/
theorem Nested.turned (hnested : Nested loops turns t)
    {next : Store (loops l).kind.Output (Cursor (loops l).kind) × Phase (loops l).kind.Output V}
    (hturned : Turned (loops l).container (loops l).slot (turns l)
      (t.memory (loops l).kind) next)
    (hplaced : InLoop (loops l).container (turns l + 1) → (loops l).Placed)
    (hbeside : turns l ≤ (loops l).container.entries.length + 1 → ∀ m, m ≠ l →
      InLoop (loops m).container (turns m) → (loops l).Beside (loops m)) :
    Nested loops (Function.update turns l (turns l + 1)) (t.advance l next.1 next.2) where
  phase := by
    intro m
    rcases eq_or_ne m l with rfl | hm
    · rw [State.advance_phase_self, Function.update_self]
      exact hturned.phase
    · rw [State.advance_phase_of_ne _ _ _ hm, Function.update_of_ne hm]
      exact hnested.phase m
  live := by
    intro k a ha
    have hold : a ∈ (t.memory k).live → ((loops l).kind = k →
        InLoop (loops l).container (turns l) → ∀ v, a ≠ (loops l).slot v) →
        ∃ m v, InLoop (loops m).container (Function.update turns l (turns l + 1) m) ∧
          (loops m).kind = k ∧ a = (loops m).slot v := by
      intro ha hother
      obtain ⟨m, v, hm, hkind, rfl⟩ := hnested.live k a ha
      have hml : m ≠ l := by
        rintro rfl
        exact hother hkind hm v rfl
      exact ⟨m, v, by rwa [Function.update_of_ne hml], hkind, rfl⟩
    rcases eq_or_ne k (loops l).kind with rfl | hk
    · rw [State.advance_memory_self] at ha
      rcases hturned.live a ha with ⟨hl, v, rfl⟩ | ⟨ha, hother⟩
      · exact ⟨l, v, by rwa [Function.update_self], rfl, rfl⟩
      · exact hold ha fun _ => hother
    · rw [State.advance_memory_of_ne _ _ _ hk] at ha
      exact hold ha fun hkind => absurd hkind.symm hk
  nodup := by
    intro k
    rcases eq_or_ne k (loops l).kind with rfl | hk
    · rw [State.advance_memory_self]
      exact hturned.nodup
    · rw [State.advance_memory_of_ne _ _ _ hk]
      exact hnested.nodup k
  holds := by
    intro m hm
    rcases eq_or_ne m l with rfl | hml
    · rw [Function.update_self] at hm
      rw [State.advance_memory_self, Function.update_self]
      exact hturned.holds hm
    · rw [Function.update_of_ne hml] at hm
      rw [Function.update_of_ne hml]
      refine (hnested.holds m hm).frame ?_
      intro v
      refine t.advance_kept _ _ ((hnested.holds m hm).live v) fun ha => hturned.kept _ ha ?_
      exact fun hl w => (hnested.beside m l hml hm hl).slot_ne v w
  placed := (Function.forall_update_iff turns fun m n =>
    InLoop (loops m).container n → (loops m).Placed).mpr ⟨hplaced, fun m _ => hnested.placed m⟩
  beside := by
    refine forall_pairs_update (fun _ _ => Loop.Beside.symm) hnested.beside ?_
    exact fun hl => hbeside (Nat.le_of_succ_le hl.2)

omit [DecidableEq L] in
/-- A loop that may take a turn has its storage, beside the others. -/
theorem Nested.storage (hnested : Nested loops turns t) (hroom : Room loops t l)
    (hturns : turns l ≤ (loops l).container.entries.length + 1) :
    (loops l).Placed ∧ ∀ m, m ≠ l → InLoop (loops m).container (turns m) →
      (loops l).Beside (loops m) := by
  rcases Nat.eq_zero_or_pos (turns l) with hzero | hpos
  · have hinitial : t.phase l = .initial := by
      rw [hnested.phase, hzero]
      rfl
    obtain ⟨hplaced, hothers⟩ := hroom (by rw [hinitial, isInitial])
    refine ⟨hplaced, fun m _ hm => hothers m ?_⟩
    rw [hnested.phase, running_of_inLoop hm, isRunning]
  · have hl : InLoop (loops l).container (turns l) := ⟨hpos, hturns⟩
    exact ⟨hnested.placed l hl, fun m hml hm => hnested.beside l m hml.symm hl hm⟩

theorem nested_turn (hnested : Nested loops turns t) (hroom : Room loops t l) :
    Nested loops (Function.update turns l (turns l + 1)) (turn loops t l) := by
  have hstorage := hnested.storage hroom
  have hfresh : turns l = 0 → ∀ v, (loops l).slot v ∉ (t.memory (loops l).kind).live := by
    intro hzero v hv
    obtain ⟨m, w, hm, -, hslot⟩ := hnested.live _ _ hv
    rcases eq_or_ne m l with rfl | hml
    · exact Nat.ne_of_gt hm.1 hzero
    · exact ((hstorage (by omega)).2 m hml hm).slot_ne v w hslot
  have hslots : turns l ≤ (loops l).container.entries.length + 1 →
      (loops l).slot .it ≠ 0 ∧ (loops l).slot .it ≠ (loops l).slot .stop := by
    intro hturns
    have hplaced := (hstorage hturns).1
    exact ⟨hplaced.1 .it, hplaced.slot_ne⟩
  have hturned := turned_loopTurn (copyConstruct libs (loops l).kind) (loops l).bytes
    (hnested.phase l) (hnested.nodup _) hfresh hslots (hnested.holds l) hnested.visits_current
  exact hnested.turned hturned (fun hl => (hstorage (Nat.le_of_succ_le hl.2)).1)
    fun hturns => (hstorage hturns).2

end Turns

theorem nested_notStarted (loops : L → Loop libs)
    (bytes : (k : Kind) → Nat → CachedIterator k.Output (Cursor k)) :
    Nested loops (fun _ => 0) (notStarted loops bytes) := by
  have hnone : ∀ l, ¬ InLoop (loops l).container 0 := fun _ hl => Nat.lt_irrefl 0 hl.1
  exact {
    phase := fun _ => rfl
    live := by simp [notStarted, noObjects]
    nodup := fun _ => List.nodup_nil
    holds := fun l hl => absurd hl (hnone l)
    placed := fun l hl => absurd hl (hnone l)
    beside := fun l _ _ hl => absurd hl (hnone l) }

/-- However the turns of loops over any maps and sequences are interleaved, each
loop sees the entries of its own container, in order, and stops after the last. Until
it takes its next turn `*it` keeps showing the same entry. -/
theorem nested_loops_visit_own_entries [DecidableEq L] (loops : L → Loop libs)
    (bytes : (k : Kind) → Nat → CachedIterator k.Output (Cursor k)) (schedule : List L)
    (hroom : Along (turn loops) (Room loops) (notStarted loops bytes) schedule) (l : L) :
    let t := run (turn loops) (notStarted loops bytes) schedule
    let entries := visits (loops l).container ((loops l).slot .it)
    t.phase l = phaseAfter (loops l).container ((loops l).slot .it) (schedule.count l) ∧
      ∀ k, schedule.count l = k + 1 → k < entries.length → entries[k]? = some (current t l) := by
  intro t entries
  have hstep : ∀ past t l, Nested loops (fun m => past.count m) t → Room loops t l →
      Nested loops (fun m => (past ++ [l]).count m) (turn loops t l) := by
    intro past t l hnested hroom
    rw [count_concat]
    exact nested_turn hnested hroom
  have hinit : Nested loops (fun m => [].count m) (notStarted loops bytes) :=
    nested_notStarted loops bytes
  have hnested : Nested loops (fun m => schedule.count m) t := run_history hstep hinit hroom
  refine ⟨hnested.phase l, fun k hcount hk => ?_⟩
  rw [visits_length] at hk
  have hcurrent := hnested.visits_current (l := l) ⟨by omega, by omega⟩ (by omega)
  rwa [show schedule.count l - 1 = k by omega] at hcurrent

def listLibraries : Libraries (fun k => List (k.Output → Ref)) Nat where
  iter := fun k =>
    match k with
    | .map => mapLibrary
    | .seq => seqLibrary
  outer := fun p => p
  iter_outer := by
    rintro (_ | _)
    · rfl
    · rfl

def slots (it stop : Nat) : LoopVar → Nat
  | .it => it
  | .stop => stop

def oneEntry : Container mapLibrary :=
  listContainer [fun _ => .inside 12] (by decide)

/-- A loop over a sequence of two maps that are decoded into its cursor, and the
loops over these maps, the second in the storage of the first. -/
def walk : Fin 3 → Loop listLibraries
  | 0 => { kind := .seq, container := encodedSeq, slot := slots 100 200, bytes := [] }
  | 1 => { kind := .map, container := mixedMap, slot := slots 300 400, bytes := [] }
  | 2 => { kind := .map, container := oneEntry, slot := slots 300 400, bytes := [] }

theorem nested_loops_visit_own_entries_walk :
    let t := run (turn walk) (notStarted walk fun _ _ => .default [])
      [0, 1, 1, 1, 1, 0, 2, 2]
    let entries := visits (walk 0).container ((walk 0).slot .it)
    t.phase 0 = phaseAfter (walk 0).container ((walk 0).slot .it) 2 ∧
      ∀ k, 2 = k + 1 → k < entries.length → entries[k]? = some (current t 0) :=
  nested_loops_visit_own_entries walk (fun _ _ => .default []) [0, 1, 1, 1, 1, 0, 2, 2]
    (by decide) 0

end CloudabiCpp.Argdata.Nesting

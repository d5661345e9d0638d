import Mathlib.Data.List.Basic

/-!
Runs of a machine whose operations are total functions of the state. What the
caller owes at each step is a predicate on the state before the step, so that
one list of operations can be judged legal, safe and so on independently.
-/

namespace CloudabiCpp.Lib.Runs

variable {σ τ ω : Type*}

def run (exec : σ → ω → σ) (start : σ) (ops : List ω) : σ :=
  ops.foldl exec start

/-- The predicate holds of every operation at the state it is applied to. -/
def Along (exec : σ → ω → σ) (p : σ → ω → Prop) : σ → List ω → Prop
  | _, [] => True
  | s, op :: ops => p s op ∧ Along exec p (exec s op) ops

instance decidableAlong (exec : σ → ω → σ) (p : σ → ω → Prop)
    [∀ s op, Decidable (p s op)] :
    ∀ (s : σ) (ops : List ω), Decidable (Along exec p s ops)
  | _, [] => isTrue trivial
  | s, op :: ops =>
      have := decidableAlong exec p (exec s op) ops
      inferInstanceAs (Decidable (p s op ∧ Along exec p (exec s op) ops))

@[simp] theorem run_nil (exec : σ → ω → σ) (s : σ) : run exec s [] = s := rfl

@[simp] theorem run_cons (exec : σ → ω → σ) (s : σ) (op : ω) (ops : List ω) :
    run exec s (op :: ops) = run exec (exec s op) ops := rfl

theorem run_append (exec : σ → ω → σ) (s : σ) (ops more : List ω) :
    run exec s (ops ++ more) = run exec (run exec s ops) more := by
  simp [run]

@[simp] theorem along_nil (exec : σ → ω → σ) (p : σ → ω → Prop) (s : σ) :
    Along exec p s [] := trivial

@[simp] theorem along_cons (exec : σ → ω → σ) (p : σ → ω → Prop) (s : σ)
    (op : ω) (ops : List ω) :
    Along exec p s (op :: ops) ↔ p s op ∧ Along exec p (exec s op) ops := Iff.rfl

theorem along_append (exec : σ → ω → σ) (p : σ → ω → Prop) (s : σ)
    (ops more : List ω) :
    Along exec p s (ops ++ more) ↔
      Along exec p s ops ∧ Along exec p (run exec s ops) more := by
  induction ops generalizing s with
  | nil => simp
  | cons op ops ih => simp [ih, and_assoc]

theorem Along.of_mem {exec : σ → ω → σ} {p : σ → ω → Prop} {ops : List ω}
    (hp : ∀ op ∈ ops, ∀ s, p s op) (s : σ) : Along exec p s ops := by
  induction ops generalizing s with
  | nil => trivial
  | cons op ops ih =>
      refine ⟨hp op List.mem_cons_self s, ih (fun x hx => ?_) (exec s op)⟩
      exact hp x (List.mem_cons_of_mem op hx)

theorem Along.mono {exec : σ → ω → σ} {p q : σ → ω → Prop}
    (hpq : ∀ s op, p s op → q s op) {s : σ} {ops : List ω}
    (halong : Along exec p s ops) : Along exec q s ops := by
  induction ops generalizing s with
  | nil => trivial
  | cons op ops ih => exact ⟨hpq s op halong.1, ih halong.2⟩

theorem Along.and {exec : σ → ω → σ} {p q : σ → ω → Prop} {s : σ} {ops : List ω}
    (hp : Along exec p s ops) (hq : Along exec q s ops) :
    Along exec (fun s op => p s op ∧ q s op) s ops := by
  induction ops generalizing s with
  | nil => trivial
  | cons op ops ih => exact ⟨⟨hp.1, hq.1⟩, ih hp.2 hq.2⟩

theorem run_invariant {exec : σ → ω → σ} {p : σ → ω → Prop} {inv : σ → Prop}
    (hstep : ∀ s op, inv s → p s op → inv (exec s op))
    {s : σ} {ops : List ω} (hinit : inv s) (halong : Along exec p s ops) :
    inv (run exec s ops) := by
  induction ops generalizing s with
  | nil => exact hinit
  | cons op ops ih => exact ih (hstep s op hinit halong.1) halong.2

/-- What every step from a state with the invariant satisfies, a run does. -/
theorem along_of_invariant {exec : σ → ω → σ} {p q : σ → ω → Prop} {inv : σ → Prop}
    (hstep : ∀ s op, inv s → p s op → inv (exec s op) ∧ q s op)
    {s : σ} {ops : List ω} (hinit : inv s) (halong : Along exec p s ops) :
    Along exec q s ops := by
  induction ops generalizing s with
  | nil => trivial
  | cons op ops ih =>
      obtain ⟨hinv, hq⟩ := hstep s op hinit halong.1
      exact ⟨hq, ih hinv halong.2⟩

theorem along_forall_iff {exec : σ → ω → σ} {p : ω → Prop} {s : σ} {ops : List ω} :
    Along exec (fun _ op => p op) s ops ↔ ∀ op ∈ ops, p op := by
  induction ops generalizing s with
  | nil => simp
  | cons op ops ih => simp [ih]

/-- Forward simulation: the concrete machine follows the abstract one through
every run whose steps the abstract machine allows. -/
theorem run_simulates {concrete : τ → ω → τ} {abstract : σ → ω → σ}
    {p : σ → ω → Prop} {rel : τ → σ → Prop}
    (hstep : ∀ c s op, rel c s → p s op → rel (concrete c op) (abstract s op))
    {c : τ} {s : σ} {ops : List ω} (hinit : rel c s) (halong : Along abstract p s ops) :
    rel (run concrete c ops) (run abstract s ops) := by
  induction ops generalizing c s with
  | nil => exact hinit
  | cons op ops ih => exact ih (hstep c s op hinit halong.1) halong.2

theorem Along.take {exec : σ → ω → σ} {p : σ → ω → Prop} {s : σ} {ops : List ω}
    (halong : Along exec p s ops) (n : Nat) : Along exec p s (ops.take n) := by
  rw [← List.take_append_drop n ops, along_append] at halong
  exact halong.1

theorem run_take_succ (exec : σ → ω → σ) (s : σ) {ops : List ω} {n : Nat} {op : ω}
    (hop : ops[n]? = some op) :
    run exec s (ops.take (n + 1)) = exec (run exec s (ops.take n)) op := by
  rw [List.take_add_one, hop, run_append]
  rfl

theorem Along.getElem? {exec : σ → ω → σ} {p : σ → ω → Prop} {s : σ} {ops : List ω}
    (halong : Along exec p s ops) {n : Nat} {op : ω} (hop : ops[n]? = some op) :
    p (run exec s (ops.take n)) op := by
  obtain ⟨hn, rfl⟩ := List.getElem?_eq_some_iff.mp hop
  rw [← List.take_append_drop n ops, along_append, List.drop_eq_getElem_cons hn] at halong
  exact halong.2.1

/-- If the simulation can only be lost by a step outside `q`, and such a step
spoils the state it leads to, then a run that is good throughout stays in `q`. -/
theorem along_of_good {concrete : τ → ω → τ} {abstract : σ → ω → σ}
    {p q : σ → ω → Prop} {rel good : τ → σ → Prop}
    (hstep : ∀ c s op, rel c s → p s op → q s op → rel (concrete c op) (abstract s op))
    (hspoil : ∀ c s op, rel c s → p s op → good (concrete c op) (abstract s op) → q s op)
    {c : τ} {s : σ} {ops : List ω} (hinit : rel c s) (halong : Along abstract p s ops)
    (hgood : ∀ n, good (run concrete c (ops.take n)) (run abstract s (ops.take n))) :
    Along abstract q s ops := by
  induction ops generalizing c s with
  | nil => trivial
  | cons op ops ih =>
      have hq : q s op := hspoil c s op hinit halong.1 (by simpa using hgood 1)
      refine ⟨hq, ih (hstep c s op hinit halong.1 hq) halong.2 fun n => ?_⟩
      simpa using hgood (n + 1)

theorem along_of_good_invariant {exec : σ → ω → σ} {p q : σ → ω → Prop}
    {inv good : σ → Prop} (hstep : ∀ s op, inv s → p s op → q s op → inv (exec s op))
    (hspoil : ∀ s op, inv s → p s op → good (exec s op) → q s op)
    {s : σ} {ops : List ω} (hinit : inv s) (halong : Along exec p s ops)
    (hgood : ∀ n, good (run exec s (ops.take n))) : Along exec q s ops := by
  let rel : σ → σ → Prop := fun c s => c = s ∧ inv s
  let goodPair : σ → σ → Prop := fun c _ => good c
  refine @along_of_good σ σ ω exec exec p q rel goodPair ?_ ?_ s s ops ⟨rfl, hinit⟩ halong hgood
  · rintro c s op ⟨rfl, hinv⟩ hp hq
    exact ⟨rfl, hstep c op hinv hp hq⟩
  · rintro c s op ⟨rfl, hinv⟩ hp hc
    exact hspoil c op hinv hp hc

/-- Invariants that speak about the operations performed so far. -/
theorem run_history {exec : σ → ω → σ} {p : σ → ω → Prop} {inv : List ω → σ → Prop}
    (hstep : ∀ past s op, inv past s → p s op → inv (past ++ [op]) (exec s op))
    {s : σ} {ops : List ω} (hinit : inv [] s) (halong : Along exec p s ops) :
    inv ops (run exec s ops) := by
  suffices hgen : ∀ past, inv past s → inv (past ++ ops) (run exec s ops) by
    simpa using hgen [] hinit
  intro past hpast
  clear hinit
  induction ops generalizing past s with
  | nil => simpa using hpast
  | cons op ops ih =>
      simpa using ih halong.2 (past ++ [op]) (hstep past s op hpast halong.1)

end CloudabiCpp.Lib.Runs

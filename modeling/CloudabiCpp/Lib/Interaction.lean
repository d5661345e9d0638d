import Mathlib.Data.List.Basic

/-!
Programs that ask an environment questions and continue with its replies.
-/

namespace CloudabiCpp.Lib.Interaction

inductive Program (Q R α : Type) where
  | done (a : α)
  | ask (q : Q) (next : R → Program Q R α)

namespace Program

variable {Q R α β σ : Type}

def map (f : α → β) : Program Q R α → Program Q R β
  | .done a => .done (f a)
  | .ask q next => .ask q fun r => (next r).map f

/-- The program asks `q` on some path of replies. -/
def Issues (q : Q) : Program Q R α → Prop
  | .done _ => False
  | .ask q' next => q' = q ∨ ∃ r, (next r).Issues q

def exec (handle : σ → Q → R × σ) : σ → Program Q R α → α × σ
  | s, .done a => (a, s)
  | s, .ask q next => (next (handle s q).1).exec handle (handle s q).2

/-- The questions that are asked, each with its reply. -/
def dialogue (handle : σ → Q → R × σ) : σ → Program Q R α → List (Q × R)
  | _, .done _ => []
  | s, .ask q next =>
      (q, (handle s q).1) :: (next (handle s q).1).dialogue handle (handle s q).2

def trace (handle : σ → Q → R × σ) : σ → Program Q R α → List Q
  | _, .done _ => []
  | s, .ask q next => q :: (next (handle s q).1).trace handle (handle s q).2

@[simp] theorem issues_done (q : Q) (a : α) : ¬ (done a : Program Q R α).Issues q := id

@[simp] theorem issues_ask (q q' : Q) (next : R → Program Q R α) :
    (ask q' next).Issues q ↔ q' = q ∨ ∃ r, (next r).Issues q := Iff.rfl

@[simp] theorem exec_done (handle : σ → Q → R × σ) (s : σ) (a : α) :
    (done a : Program Q R α).exec handle s = (a, s) := rfl

@[simp] theorem exec_ask (handle : σ → Q → R × σ) (s : σ) (q : Q)
    (next : R → Program Q R α) :
    (ask q next).exec handle s = (next (handle s q).1).exec handle (handle s q).2 := rfl

@[simp] theorem trace_ask (handle : σ → Q → R × σ) (s : σ) (q : Q)
    (next : R → Program Q R α) :
    (ask q next).trace handle s =
      q :: (next (handle s q).1).trace handle (handle s q).2 := rfl

@[simp] theorem trace_map (handle : σ → Q → R × σ) (f : α → β) (s : σ)
    (p : Program Q R α) : (p.map f).trace handle s = p.trace handle s := by
  induction p generalizing s with
  | done a => rfl
  | ask q next ih => simp [map, ih]

@[simp] theorem exec_map (handle : σ → Q → R × σ) (f : α → β) (s : σ) (p : Program Q R α) :
    (p.map f).exec handle s = (f (p.exec handle s).1, (p.exec handle s).2) := by
  induction p generalizing s with
  | done a => rfl
  | ask q next ih => simp [map, ih]

@[simp] theorem issues_map (q : Q) (f : α → β) (p : Program Q R α) :
    (p.map f).Issues q ↔ p.Issues q := by
  induction p with
  | done a => exact Iff.rfl
  | ask q' next ih => simp [map, ih]

theorem issues_of_mem_dialogue {handle : σ → Q → R × σ} {s : σ} {p : Program Q R α} {q : Q}
    {r : R} (hmem : (q, r) ∈ p.dialogue handle s) : p.Issues q := by
  induction p generalizing s with
  | done a => cases hmem
  | ask q' next ih =>
      rcases List.mem_cons.mp hmem with heq | hlater
      · exact Or.inl (Prod.mk.inj heq).1.symm
      · exact Or.inr ⟨_, ih _ hlater⟩

/-- What no question of the program spoils is left of it when it is done. -/
theorem exec_invariant {handle : σ → Q → R × σ} {inv : σ → Prop} {s : σ} {p : Program Q R α}
    (hask : ∀ s q, p.Issues q → inv s → inv (handle s q).2) (hinv : inv s) :
    inv (p.exec handle s).2 := by
  induction p generalizing s with
  | done a => exact hinv
  | ask q next ih =>
      refine ih _ (fun s' q' hissued => ?_) (hask s q (Or.inl rfl) hinv)
      exact hask s' q' (Or.inr ⟨_, hissued⟩)

end Program

/-- The environment gave these replies on its way from `s` to `s'`. -/
def Transcript (handle : σ → Q → R × σ) : (s : σ) → List (Q × R) → (s' : σ) → Prop
  | s, [], s' => s = s'
  | s, (q, r) :: rest, s' => (handle s q).1 = r ∧ Transcript handle (handle s q).2 rest s'

theorem Transcript.append {handle : σ → Q → R × σ} {s s' s'' : σ} {log more : List (Q × R)}
    (hlog : Transcript handle s log s') (hmore : Transcript handle s' more s'') :
    Transcript handle s (log ++ more) s'' := by
  induction log generalizing s with
  | nil =>
      obtain rfl : s = s' := hlog
      exact hmore
  | cons entry rest ih => exact ⟨hlog.1, ih hlog.2⟩

theorem transcript_dialogue (handle : σ → Q → R × σ) (s : σ) (p : Program Q R α) :
    Transcript handle s (p.dialogue handle s) (p.exec handle s).2 := by
  induction p generalizing s with
  | done a => rfl
  | ask q next ih => exact ⟨rfl, ih _ _⟩

end CloudabiCpp.Lib.Interaction

import Mathlib.Data.List.Basic
import Mathlib.Tactic.SplitIfs

/-!
Programs that print as they go and may raise. What was printed before an
exception has been printed.
-/

namespace CloudabiCpp.Lib.Printing

section Results

variable {ε α β : Type}

theorem exists_map {result : Except ε α} (hresult : ∃ a, result = .ok a) (f : α → β) :
    ∃ b, result.map f = .ok b := by
  obtain ⟨a, rfl⟩ := hresult
  exact ⟨f a, rfl⟩

theorem mapM_eq_ok {f : α → Except ε β} {g : α → β} {xs : List α}
    (hf : ∀ x ∈ xs, f x = .ok (g x)) : xs.mapM f = .ok (xs.map g) := by
  induction xs with
  | nil => rfl
  | cons x xs ih =>
      have hrest := ih fun y hy => hf y (List.mem_cons_of_mem x hy)
      rw [List.mapM_cons, hf x List.mem_cons_self, hrest]
      rfl

theorem exists_ok_of_mapM {f : α → Except ε β} {xs : List α} {ys : List β}
    (hmapM : xs.mapM f = .ok ys) : ∀ x ∈ xs, ∃ y, f x = .ok y := by
  induction xs generalizing ys with
  | nil => exact fun x hx => absurd hx List.not_mem_nil
  | cons x xs ih =>
      rw [List.mapM_cons] at hmapM
      rcases hx : f x with e | y
      · rw [hx] at hmapM
        cases hmapM
      · rcases hxs : xs.mapM f with e | rest
        · rw [hx, hxs] at hmapM
          cases hmapM
        · exact List.forall_mem_cons.mpr ⟨⟨y, hx⟩, ih hxs⟩

end Results

structure Printer (ω ε : Type*) (α : Type) where
  output : List ω
  result : Except ε α

namespace Printer

variable {ω ε : Type*} {α β γ : Type}

def ofExcept (result : Except ε α) : Printer ω ε α where
  output := []
  result := result

def print (item : ω) : Printer ω ε Unit where
  output := [item]
  result := .ok ()

instance : Monad (Printer ω ε) where
  pure := fun a => ofExcept (.ok a)
  bind := fun p next =>
    match p.result with
    | .error e => { output := p.output, result := .error e }
    | .ok a => { output := p.output ++ (next a).output, result := (next a).result }

instance : MonadLift (Except ε) (Printer ω ε) where
  monadLift := ofExcept

/-- An `if` without `else`. -/
def when (c : Prop) [Decidable c] (p : Printer ω ε Unit) : Printer ω ε Unit :=
  if c then p else pure ()

/-- The program prints these items, and then ends with the value. -/
def Yields (p : Printer ω ε α) (items : List ω) (a : α) : Prop :=
  p = { output := items, result := .ok a }

/-- The program prints these items, and then raises. -/
def Raises (p : Printer ω ε α) (items : List ω) (e : ε) : Prop :=
  p = { output := items, result := .error e }

def Completes (p : Printer ω ε α) : Prop := ∃ a, p.result = .ok a

theorem yields_pure (a : α) : (pure a : Printer ω ε α).Yields [] a := rfl

theorem yields_print (item : ω) : (print item : Printer ω ε Unit).Yields [item] () := rfl

theorem yields_lift {result : Except ε α} {a : α} (hresult : result = .ok a) :
    (liftM result : Printer ω ε α).Yields [] a := by
  rw [hresult]
  rfl

theorem raises_lift {result : Except ε α} {e : ε} (hresult : result = .error e) :
    (liftM result : Printer ω ε α).Raises [] e := by
  rw [hresult]
  rfl

theorem Yields.bind {p : Printer ω ε α} {next : α → Printer ω ε β} {items more : List ω}
    {a : α} {b : β} (hp : p.Yields items a) (hnext : (next a).Yields more b) :
    (p >>= next).Yields (items ++ more) b := by
  rw [Yields] at hp hnext
  rw [hp]
  change Printer.mk (items ++ (next a).output) (next a).result = _
  rw [hnext]

theorem Yields.bind_raises {p : Printer ω ε α} {next : α → Printer ω ε β}
    {items more : List ω} {a : α} {e : ε} (hp : p.Yields items a)
    (hnext : (next a).Raises more e) : (p >>= next).Raises (items ++ more) e := by
  rw [Yields] at hp
  rw [Raises] at hnext
  rw [hp]
  change Printer.mk (items ++ (next a).output) (next a).result = _
  rw [hnext]

theorem Raises.bind {p : Printer ω ε α} {items : List ω} {e : ε} (hp : p.Raises items e)
    (next : α → Printer ω ε β) : (p >>= next).Raises items e := by
  rw [Raises] at hp
  rw [hp]
  rfl

theorem Yields.completes {p : Printer ω ε α} {items : List ω} {a : α}
    (hp : p.Yields items a) : p.Completes := by
  rw [hp]
  exact ⟨a, rfl⟩

theorem Yields.output {p : Printer ω ε α} {items : List ω} {a : α}
    (hp : p.Yields items a) : p.output = items := by
  rw [hp]

theorem yields_when {c : Prop} [Decidable c] {p : Printer ω ε Unit} {items : List ω}
    (hp : c → p.Yields items ()) : (when c p).Yields (if c then items else []) () := by
  unfold when
  split_ifs with hc
  · exact hp hc
  · exact yields_pure ()

theorem raises_when {c : Prop} [Decidable c] {p : Printer ω ε Unit} {items : List ω} {e : ε}
    (hc : c) (hp : p.Raises items e) : (when c p).Raises items e := by
  rwa [when, if_pos hc]

theorem Raises.output {p : Printer ω ε α} {items : List ω} {e : ε}
    (hp : p.Raises items e) : p.output = items := by
  rw [hp]

theorem yields_forM_flatMap {xs : List γ} {body : γ → Printer ω ε Unit} {items : γ → List ω}
    (hbody : ∀ x ∈ xs, (body x).Yields (items x) ()) :
    (xs.forM body).Yields (xs.flatMap items) () := by
  induction xs with
  | nil => exact yields_pure ()
  | cons x xs ih =>
      have hrest := ih fun y hy => hbody y (List.mem_cons_of_mem x hy)
      exact (hbody x List.mem_cons_self).bind hrest

/-- A loop that skips some of its turns. -/
theorem yields_forM_filter {xs : List γ} {c : γ → Prop} [DecidablePred c]
    {body : γ → Printer ω ε Unit} {items : γ → List ω}
    (hbody : ∀ x ∈ xs, (body x).Yields (if c x then items x else []) ()) :
    (xs.forM body).Yields ((xs.filter c).flatMap items) () := by
  induction xs with
  | nil => exact yields_pure ()
  | cons x xs ih =>
      have hfirst := hbody x List.mem_cons_self
      have hrest := ih fun y hy => hbody y (List.mem_cons_of_mem x hy)
      by_cases hx : c x
      · have hkept : (x :: xs).filter c = x :: xs.filter c :=
          List.filter_cons_of_pos (by simpa using hx)
        rw [if_pos hx] at hfirst
        rw [hkept]
        exact hfirst.bind hrest
      · have hskipped : (x :: xs).filter c = xs.filter c :=
          List.filter_cons_of_neg (by simpa using hx)
        rw [if_neg hx] at hfirst
        rw [hskipped]
        exact hfirst.bind hrest

/-- A loop that prints one item in each turn. -/
theorem yields_forM {xs : List γ} {body : γ → Printer ω ε Unit} {item : γ → ω}
    (hbody : ∀ x ∈ xs, (body x).Yields [item x] ()) :
    (xs.forM body).Yields (xs.map item) () := by
  rw [List.map_eq_flatMap]
  exact yields_forM_flatMap hbody

theorem Raises.not_completes {p : Printer ω ε α} {items : List ω} {e : ε}
    (hp : p.Raises items e) : ¬ p.Completes := by
  rw [hp]
  rintro ⟨a, ha⟩
  cases ha

end Printer

end CloudabiCpp.Lib.Printing

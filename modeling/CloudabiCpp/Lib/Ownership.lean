import Mathlib.Order.BooleanAlgebra.Set
import Mathlib.Data.Option.Basic
import CloudabiCpp.Lib.LiveObjects

/-!
Sole ownership: every resource has exactly one owner, and owners hold nothing
else. The rules say how ownership changes when a resource is acquired, handed on
or given up.
-/

namespace CloudabiCpp.Lib.Ownership

open CloudabiCpp.Lib.LiveObjects

variable {κ ρ α : Type*}

structure SoleOwners (resources : Set ρ) (held : κ → Option ρ) : Prop where
  owner : ∀ r ∈ resources, ∃! k, held k = some r
  valid : ∀ k r, held k = some r → r ∈ resources

namespace SoleOwners

variable {resources : Set ρ} {held : κ → Option ρ}

theorem unheld (h : SoleOwners resources held) {r : ρ} (hr : r ∉ resources) (k : κ) :
    held k ≠ some r := by
  intro hk
  exact hr (h.valid k r hk)

variable [DecidableEq κ]

theorem update_eq_some {k j : κ} {v : Option ρ} {r : ρ}
    (hj : Function.update held k v j = some r) :
    j = k ∧ v = some r ∨ j ≠ k ∧ held j = some r := by
  rcases eq_or_ne j k with rfl | hjk
  · rw [Function.update_self] at hj
    exact Or.inl ⟨rfl, hj⟩
  · rw [Function.update_of_ne hjk] at hj
    exact Or.inr ⟨hjk, hj⟩

theorem acquire (h : SoleOwners resources held) {k : κ} {r : ρ} (hk : held k = none)
    (hr : r ∉ resources) :
    SoleOwners (insert r resources) (Function.update held k (some r)) := by
  constructor
  · rintro r' (rfl | hr')
    · refine ⟨k, Function.update_self k (some r') held, ?_⟩
      intro k' hk'
      rcases update_eq_some hk' with ⟨rfl, -⟩ | ⟨-, hheld⟩
      · rfl
      · exact absurd hheld (h.unheld hr k')
    · obtain ⟨k', hk', hunique⟩ := h.owner r' hr'
      have hne : k' ≠ k := by
        rintro rfl
        rw [hk] at hk'
        cases hk'
      refine ⟨k', (Function.update_of_ne hne (some r) held).trans hk', ?_⟩
      intro j hj
      rcases update_eq_some hj with ⟨-, hnew⟩ | ⟨-, hheld⟩
      · exact absurd (Option.some.inj hnew ▸ hr') hr
      · exact hunique j hheld
  · intro j r' hj
    rcases update_eq_some hj with ⟨-, hnew⟩ | ⟨-, hheld⟩
    · exact Or.inl (Option.some.inj hnew).symm
    · exact Or.inr (h.valid j r' hheld)

theorem release (h : SoleOwners resources held) (k : κ) :
    SoleOwners (resources \ {r | held k = some r}) (Function.update held k none) := by
  constructor
  · rintro r ⟨hr, hne⟩
    obtain ⟨k', hk', hunique⟩ := h.owner r hr
    have hkk' : k' ≠ k := by
      rintro rfl
      exact hne hk'
    refine ⟨k', (Function.update_of_ne hkk' none held).trans hk', ?_⟩
    intro j hj
    rcases update_eq_some hj with ⟨-, hnone⟩ | ⟨-, hheld⟩
    · cases hnone
    · exact hunique j hheld
  · intro j r hj
    rcases update_eq_some hj with ⟨-, hnone⟩ | ⟨hjk, hheld⟩
    · cases hnone
    · have hr := h.valid j r hheld
      refine ⟨hr, ?_⟩
      intro hk
      exact hjk ((h.owner r hr).unique hheld hk)

/-- Handing on to an empty owner is giving up and acquiring again. -/
theorem transfer (h : SoleOwners resources held) (src : κ) {dst : κ} (hdst : held dst = none) :
    SoleOwners resources
      (Function.update (Function.update held src none) dst (held src)) := by
  cases hsrc : held src with
  | none =>
      have hself : Function.update held src none = held :=
        Function.update_eq_self_iff.mpr hsrc.symm
      rw [hself, Function.update_eq_self_iff.mpr hdst.symm]
      exact h
  | some r =>
      have hset : resources \ {r' | held src = some r'} = resources \ {r} := by
        ext r'
        simp [hsrc, eq_comm]
      have hreleased := h.release src
      rw [hset] at hreleased
      have hnone : Function.update held src none dst = none := by
        by_cases hds : dst = src
        · simp [hds]
        · simp [hds, hdst]
      have hagain := hreleased.acquire hnone (fun hmem => hmem.2 rfl)
      rwa [Set.insert_sdiff_singleton, Set.insert_eq_of_mem (h.valid src r hsrc)] at hagain

/-- Handing on to an owner that gives up what it held before. -/
theorem replace (h : SoleOwners resources held) {src dst : κ} (hne : src ≠ dst) :
    SoleOwners (resources \ {r | held dst = some r})
      (Function.update (Function.update held src none) dst (held src)) := by
  have hmoved := (h.release dst).transfer src (Function.update_self dst none held)
  rwa [Function.update_of_ne hne, Function.update_comm hne.symm, Function.update_idem] at hmoved

end SoleOwners

section Resolved

variable {β : Type*}

/-- What the owners hold if each resource stands for something. -/
def resolve (table : ρ → β) (held : κ → Option ρ) : κ → Option β :=
  Option.map table ∘ held

theorem resolve_update [DecidableEq κ] (table : ρ → β) (held : κ → Option ρ) (k : κ)
    (v : Option ρ) :
    resolve table (Function.update held k v) =
      Function.update (resolve table held) k (v.map table) :=
  Function.comp_update (Option.map table) held k v

variable [DecidableEq ρ] {resources : Set ρ} {held : κ → Option ρ}

/-- What nobody holds may come to stand for something else. -/
theorem SoleOwners.resolve_unheld (h : SoleOwners resources held) {r : ρ} (hr : r ∉ resources)
    (table : ρ → β) (x : β) : resolve (Function.update table r x) held = resolve table held := by
  funext k
  apply Option.map_congr
  intro r' hheld
  have hne : r' ≠ r := by
    rintro rfl
    exact h.unheld hr k hheld
  exact Function.update_of_ne hne x table

/-- A change of what a resource stands for is seen by its owner alone. -/
theorem SoleOwners.resolve_held [DecidableEq κ] (h : SoleOwners resources held) {k : κ} {r : ρ}
    (hk : held k = some r) (table : ρ → β) (x : β) :
    resolve (Function.update table r x) held =
      Function.update (resolve table held) k (some x) := by
  rw [Function.eq_update_iff]
  constructor
  · simp [resolve, hk]
  · intro j hjk
    apply Option.map_congr
    intro r' hheld
    have hne : r' ≠ r := by
      rintro rfl
      exact hjk ((h.owner r' (h.valid k r' hk)).unique hheld hk)
    exact Function.update_of_ne hne x table

end Resolved

/-- The owners that are live objects; `holds` is what an object owns. -/
def heldAt (holds : α → Option ρ) (o : Objects α) (a : Nat) : Option ρ :=
  if a ∈ o.live then holds (o.obj a) else none

variable (holds : α → Option ρ) (o : Objects α)

theorem heldAt_of_mem {a : Nat} (ha : a ∈ o.live) : heldAt holds o a = holds (o.obj a) :=
  if_pos ha

theorem heldAt_of_not_mem {a : Nat} (ha : a ∉ o.live) : heldAt holds o a = none :=
  if_neg ha

theorem heldAt_place (a : Nat) (x : α) :
    heldAt holds (o.place a x) = Function.update (heldAt holds o) a (holds x) := by
  rw [Function.eq_update_iff]
  constructor
  · simp [heldAt]
  · intro b hba
    simp [heldAt, hba, o.place_obj_of_ne x hba]

theorem heldAt_put {a : Nat} (ha : a ∈ o.live) (x : α) :
    heldAt holds (o.put a x) = Function.update (heldAt holds o) a (holds x) := by
  rw [Function.eq_update_iff]
  constructor
  · simp [heldAt, ha]
  · intro b hba
    simp [heldAt, o.put_obj_of_ne x hba]

theorem heldAt_moveConstruct {dst src : Nat} (hsrc : src ∈ o.live) {empty : α}
    (hempty : holds empty = none) :
    heldAt holds ((o.put src empty).place dst (o.obj src)) =
      Function.update (Function.update (heldAt holds o) src none) dst (heldAt holds o src) := by
  rw [heldAt_place, heldAt_put holds o hsrc, hempty, heldAt_of_mem holds o hsrc]

theorem heldAt_moveAssign {dst src : Nat} (hdst : dst ∈ o.live) (hsrc : src ∈ o.live) {empty : α}
    (hempty : holds empty = none) :
    heldAt holds ((o.put src empty).put dst (o.obj src)) =
      Function.update (Function.update (heldAt holds o) src none) dst (heldAt holds o src) := by
  rw [heldAt_put holds (o.put src empty) hdst, heldAt_put holds o hsrc, hempty,
    heldAt_of_mem holds o hsrc]

theorem heldAt_remove (hlive : o.live.Nodup) (a : Nat) :
    heldAt holds (o.remove a) = Function.update (heldAt holds o) a none := by
  rw [Function.eq_update_iff]
  constructor
  · simp [heldAt, hlive.not_mem_erase]
  · intro b hba
    simp [heldAt, List.mem_erase_of_ne hba]

end CloudabiCpp.Lib.Ownership

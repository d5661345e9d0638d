import CloudabiCpp.Wrappers.DescriptorRuns

/-!
Who holds the descriptors a process opened. `create2` passes the same output
pointer twice, so a successful call loses its first descriptor; apart from that
every opened descriptor has one owner throughout.
-/

namespace CloudabiCpp.Wrappers.DescriptorOwnership

open CloudabiCpp.Lib.Interaction
open CloudabiCpp.Lib.LiveObjects
open CloudabiCpp.Lib.Ownership
open CloudabiCpp.Lib.Runs
open CloudabiCpp.Wrappers.Syscalls
open CloudabiCpp.Wrappers.FdImpl
open CloudabiCpp.Wrappers.DescriptorRuns

variable (types : TypesHeader)

/-- Each descriptor that was opened through a wrapper and is not closed yet is
held by exactly one live `unique_fd`, and these hold nothing else. -/
def Owned (s : Process) : Prop :=
  SoleOwners (s.kernel.opened : Set Nat) s.held

/-- A failing call changes nothing and reports the error, a successful one
returns open descriptors unless the process is the child of a fork, and a
destructor closes what the object holds, which is open. -/
def StepCorrect (s : Process) (op : Op) : Prop :=
  match op with
  | .call c d _ =>
      match (c.wrapper types).exec (Kernel.answer d) s.kernel with
      | (.error errno, _) => (∃ contents, d = .failure errno contents) ∧ s.exec types op = s
      | (.ok us, k) =>
          (∃ tid, d = .child tid) ∨
            ∃ fresh tid stat, d = .success fresh tid stat ∧
              ∀ u ∈ us, u.held.toBool = true ∧ u.held.fd_ ∈ k.descriptors
  | .destroy a =>
      match s.held a with
      | none => (s.exec types op).kernel = s.kernel
      | some fd => fd ∈ s.kernel.descriptors ∧ (s.exec types op).kernel = s.kernel.close fd
  | _ => True

def IsCreate2Success : Op → Prop
  | .call (.create2 _) (.success _ _ _) _ => True
  | _ => False

section Wrappers

theorem wrapper_exec_failure (c : Opening) (k : Kernel) {errno : Nat} (herrno : errno ≠ 0)
    (contents : List Stored) :
    (c.wrapper types).exec (Kernel.answer (.failure errno contents)) k =
      (.error errno, k) := by
  cases c <;>
    simp [Opening.wrapper, Fd.create1, Fd.create2, Fd.dup, Fd.fileOpen, Fd.sockAccept,
      FreeFunctions.procFork, exec_resultOf, Kernel.answer, herrno, Except.map]

theorem wrapper_exec_success {c : Opening} (hc : ∀ ft, c ≠ .create2 ft) (k : Kernel)
    (fd tid : Nat) (stat : Sockstat) :
    (c.wrapper types).exec (Kernel.answer (.success [fd] tid stat)) k =
      (.ok [⟨⟨fd⟩⟩], k.grant [fd]) := by
  cases c
  case create2 ft => exact absurd rfl (hc ft)
  all_goals
      simp [Opening.wrapper, Fd.create1, Fd.dup, Fd.fileOpen, Fd.sockAccept,
        FreeFunctions.procFork, exec_resultOf, Kernel.answer, stored, Syscall.outs,
        Locals.store, FdImpl.Locals.uniqueFd, Locals.word, Except.map]

theorem create2_exec_success (ft : EnumClass .filetype) (k : Kernel) (fd1 fd2 tid : Nat)
    (stat : Sockstat) :
    ((Opening.create2 ft).wrapper types).exec (Kernel.answer (.success [fd1, fd2] tid stat)) k =
      (.ok [⟨⟨noFd⟩⟩, ⟨⟨fd2⟩⟩], k.grant [fd1, fd2]) := by
  simp [Opening.wrapper, Fd.create2, exec_resultOf, Kernel.answer, stored, Syscall.outs,
    Locals.store, FdImpl.Locals.uniqueFd, Locals.word, Locals.declareFd, Except.map]

theorem procFork_exec_child (k : Kernel) (tid : Nat) :
    (Opening.procFork.wrapper types).exec (Kernel.answer (.child tid)) k =
      (.ok [UniqueFd.empty], k) := by
  simp [Opening.wrapper, FreeFunctions.procFork, exec_resultOf, Kernel.answer, Syscall.outs,
    Locals.store, FdImpl.Locals.uniqueFd, Locals.word, Except.map, UniqueFd.empty]

/-- A wrapper issues one system call, which opens one descriptor for each
`unique_fd` of the result. -/
theorem wrapper_trace (c : Opening) (d : Decision) (k : Kernel) :
    ∃ sys, (c.wrapper types).trace (Kernel.answer d) k = [sys] ∧ opens sys = c.results ∧
      (isFork sys = true → c = .procFork) := by
  cases c <;>
    simp [Opening.wrapper, Fd.create1, Fd.create2, Fd.dup, Fd.fileOpen, Fd.sockAccept,
      FreeFunctions.procFork, opens, Opening.results, isFork]

variable {types} in
theorem legal_call {s : Process} {c : Opening} {d : Decision} {slots : List Nat}
    (hlegal : s.Legal types (.call c d slots)) :
    ∃ sys, d.Legal s.kernel sys ∧ opens sys = c.results ∧
      (isFork sys = true → c = .procFork) := by
  obtain ⟨sys, htrace, hopens, hfork⟩ := wrapper_trace types c d s.kernel
  refine ⟨sys, hlegal.1 sys ?_, hopens, hfork⟩
  rw [htrace]
  exact List.mem_singleton_self sys

end Wrappers

structure Invariant (s : Process) : Prop where
  owned : Owned s
  live : s.objects.live.Nodup
  opened : s.kernel.opened ⊆ s.kernel.descriptors

theorem invariant_start (descriptors : Finset Nat) (bytes : Nat → UniqueFd) :
    Invariant (Process.start descriptors bytes) where
  owned :=
    { owner := by simp [Process.start]
      valid := by simp [Process.held, heldAt, Process.start] }
  live := List.nodup_nil
  opened := Finset.empty_subset _

theorem owned_eq_none {u : UniqueFd} : u.owned = none ↔ u.held.toBool = false := by
  simp [UniqueFd.owned]

theorem owned_eq_some {u : UniqueFd} {fd : Nat} :
    u.owned = some fd ↔ u.held.toBool = true ∧ u.held.fd_ = fd := by
  simp [UniqueFd.owned]

@[simp] theorem owned_empty : UniqueFd.empty.owned = none := rfl

theorem owned_of_lt {fd : Nat} (hfd : fd < noFd) : UniqueFd.owned ⟨⟨fd⟩⟩ = some fd := by
  rw [owned_eq_some]
  exact ⟨by simpa [Fd.toBool] using Nat.ne_of_lt hfd, rfl⟩

theorem destroy_exec_none {u : UniqueFd} (hu : u.owned = none) (k : Kernel) :
    (u.destroy.exec Kernel.answerClose k).2 = k := by
  rw [owned_eq_none] at hu
  simp [UniqueFd.destroy, hu]

theorem destroy_exec_some {u : UniqueFd} {fd : Nat} (hu : u.owned = some fd) {k : Kernel}
    (hfd : fd ∈ k.descriptors) :
    (u.destroy.exec Kernel.answerClose k).2 = k.close fd := by
  obtain ⟨htrue, rfl⟩ := owned_eq_some.mp hu
  simp [UniqueFd.destroy, htrue, Fd.close, errorOf, Kernel.answerClose, hfd]

theorem destroy_opened {u : UniqueFd} {k : Kernel}
    (hu : ∀ fd, u.owned = some fd → fd ∈ k.descriptors) :
    ((u.destroy.exec Kernel.answerClose k).2.opened : Set Nat) =
      (k.opened : Set Nat) \ {fd | u.owned = some fd} := by
  cases howned : u.owned with
  | none =>
      rw [destroy_exec_none howned]
      simp
  | some fd =>
      rw [destroy_exec_some howned (hu fd howned)]
      ext fd'
      simp [Kernel.close, and_comm, eq_comm]

theorem destroy_opened_subset {u : UniqueFd} {k : Kernel} (hk : k.opened ⊆ k.descriptors)
    (hu : ∀ fd, u.owned = some fd → fd ∈ k.descriptors) :
    (u.destroy.exec Kernel.answerClose k).2.opened ⊆
      (u.destroy.exec Kernel.answerClose k).2.descriptors := by
  cases howned : u.owned with
  | none =>
      rw [destroy_exec_none howned]
      exact hk
  | some fd =>
      rw [destroy_exec_some howned (hu fd howned)]
      exact Finset.erase_subset_erase fd hk

namespace Invariant

variable {types} {s : Process}

theorem held_open (h : Invariant s) {a fd : Nat} (ha : s.held a = some fd) :
    fd ∈ s.kernel.descriptors :=
  h.opened (h.owned.valid a fd ha)

theorem grant (h : Invariant s) {a fd : Nat} (ha : a ∉ s.objects.live) (hfd : fd < noFd)
    (hfresh : fd ∉ s.kernel.descriptors) :
    Invariant ⟨s.kernel.grant [fd], s.objects.place a ⟨⟨fd⟩⟩⟩ where
  owned := by
    have hdead : s.held a = none := heldAt_of_not_mem _ _ ha
    have hnew : fd ∉ (s.kernel.opened : Set Nat) := fun hmem => hfresh (h.opened hmem)
    have hacquired := h.owned.acquire hdead hnew
    unfold Owned
    have hset : ((s.kernel.grant [fd]).opened : Set Nat) =
        insert fd (s.kernel.opened : Set Nat) := by
      ext fd'
      simp [Kernel.grant]
    have hheld : Process.held ⟨s.kernel.grant [fd], s.objects.place a ⟨⟨fd⟩⟩⟩ =
        Function.update s.held a (some fd) := by
      rw [← owned_of_lt hfd]
      exact heldAt_place UniqueFd.owned s.objects a ⟨⟨fd⟩⟩
    rw [hset, hheld]
    exact hacquired
  live := List.nodup_cons.mpr ⟨ha, h.live⟩
  opened := Finset.union_subset_union_left h.opened

theorem place_empty (h : Invariant s) {a : Nat} (ha : a ∉ s.objects.live) :
    Invariant ⟨s.kernel, s.objects.place a UniqueFd.empty⟩ where
  owned := by
    have hdead : s.held a = none := heldAt_of_not_mem _ _ ha
    have hheld : Process.held ⟨s.kernel, s.objects.place a UniqueFd.empty⟩ = s.held := by
      refine (heldAt_place UniqueFd.owned s.objects a UniqueFd.empty).trans ?_
      exact Function.update_eq_self_iff.mpr hdead.symm
    unfold Owned
    rw [hheld]
    exact h.owned
  live := List.nodup_cons.mpr ⟨ha, h.live⟩
  opened := h.opened

theorem moveConstruct (h : Invariant s) {dst src : Nat} (hdst : dst ∉ s.objects.live)
    (hsrc : src ∈ s.objects.live) :
    Invariant (s.exec types (.moveConstruct dst src)) where
  owned := by
    have hdead : s.held dst = none := heldAt_of_not_mem _ _ hdst
    have hheld : (s.exec types (.moveConstruct dst src)).held =
        Function.update (Function.update s.held src none) dst (s.held src) :=
      heldAt_moveConstruct UniqueFd.owned s.objects hsrc owned_empty
    unfold Owned
    rw [hheld]
    exact h.owned.transfer src hdead
  live := List.nodup_cons.mpr ⟨hdst, h.live⟩
  opened := h.opened

theorem moveAssign (h : Invariant s) {dst src : Nat} (hdst : dst ∈ s.objects.live)
    (hsrc : src ∈ s.objects.live) :
    Invariant (s.exec types (.moveAssign dst src)) := by
  have hheld : (s.exec types (.moveAssign dst src)).held =
      Function.update (Function.update s.held src none) dst (s.held src) :=
    heldAt_moveAssign UniqueFd.owned s.objects hdst hsrc owned_empty
  rcases eq_or_ne src dst with rfl | hne
  · -- self-move: the object is empty when its old contents would be closed
    have hkernel : (s.exec types (.moveAssign src src)).kernel = s.kernel := by
      refine destroy_exec_none ?_ s.kernel
      rw [Objects.put_obj_self, owned_empty]
    rw [Function.update_idem, Function.update_eq_self] at hheld
    refine ⟨?_, h.live, ?_⟩
    · unfold Owned
      rw [hkernel, hheld]
      exact h.owned
    · rw [hkernel]
      exact h.opened
  · have hobj : (s.objects.put src UniqueFd.empty).obj dst = s.objects.obj dst :=
      Objects.put_obj_of_ne _ _ hne.symm
    have howned : s.held dst = (s.objects.obj dst).owned := heldAt_of_mem _ _ hdst
    have hopen : ∀ fd, (s.objects.obj dst).owned = some fd → fd ∈ s.kernel.descriptors :=
      fun fd hfd => h.held_open (howned.trans hfd)
    have hkernel : (s.exec types (.moveAssign dst src)).kernel =
        ((s.objects.obj dst).destroy.exec Kernel.answerClose s.kernel).2 := by
      rw [← hobj]
      rfl
    refine ⟨?_, h.live, ?_⟩
    · unfold Owned
      rw [hkernel, hheld, destroy_opened hopen, ← howned]
      exact h.owned.replace hne
    · rw [hkernel]
      exact destroy_opened_subset h.opened hopen

theorem destroy (h : Invariant s) {a : Nat} (ha : a ∈ s.objects.live) :
    Invariant (s.exec types (.destroy a)) where
  owned := by
    have hobj : s.held a = (s.objects.obj a).owned := heldAt_of_mem _ _ ha
    have hopen : ∀ fd, (s.objects.obj a).owned = some fd → fd ∈ s.kernel.descriptors :=
      fun fd hfd => h.held_open (hobj.trans hfd)
    have hreleased := h.owned.release a
    rw [hobj, ← destroy_opened hopen, Process.held, ← heldAt_remove _ _ h.live a] at hreleased
    exact hreleased
  live := h.live.erase a
  opened := by
    have hobj : s.held a = (s.objects.obj a).owned := heldAt_of_mem _ _ ha
    exact destroy_opened_subset h.opened fun fd hfd => h.held_open (hobj.trans hfd)

end Invariant

section Steps

variable {types} {s : Process}

theorem call_failure {c : Opening} {errno : Nat} {contents : List Stored} {slots : List Nat}
    (hlegal : s.Legal types (.call c (.failure errno contents) slots)) :
    s.exec types (.call c (.failure errno contents) slots) = s ∧
      StepCorrect types s (.call c (.failure errno contents) slots) := by
  obtain ⟨sys, herrno, -⟩ := legal_call hlegal
  have hexec := wrapper_exec_failure types c s.kernel herrno contents
  have hsame : s.exec types (.call c (.failure errno contents) slots) = s := by
    simp only [Process.exec, hexec]
  refine ⟨hsame, ?_⟩
  simp only [StepCorrect, hexec]
  exact ⟨⟨contents, rfl⟩, hsame⟩

theorem call_success (h : Invariant s) {c : Opening} {fresh : List Nat} {tid : Nat}
    {stat : Sockstat} {slots : List Nat} (hc : ∀ ft, c ≠ .create2 ft)
    (hlegal : s.Legal types (.call c (.success fresh tid stat) slots)) :
    Invariant (s.exec types (.call c (.success fresh tid stat) slots)) ∧
      StepCorrect types s (.call c (.success fresh tid stat) slots) := by
  have hone : c.results = 1 := by
    cases c
    case create2 ft => exact absurd rfl (hc ft)
    all_goals rfl
  obtain ⟨sys, ⟨hlength, -, hfresh⟩, hopens, -⟩ := legal_call hlegal
  obtain ⟨-, hslots, -, hfree⟩ := hlegal
  rw [hone] at hslots hopens
  rw [hopens] at hlength
  obtain ⟨fd, rfl⟩ := List.length_eq_one_iff.mp hlength
  obtain ⟨a, rfl⟩ := List.length_eq_one_iff.mp hslots
  obtain ⟨hfd, hnew⟩ := hfresh fd (List.mem_singleton_self fd)
  have hexec := wrapper_exec_success types hc s.kernel fd tid stat
  constructor
  · have hstep : s.exec types (.call c (.success [fd] tid stat) [a]) =
        ⟨s.kernel.grant [fd], s.objects.place a ⟨⟨fd⟩⟩⟩ := by
      simp only [Process.exec, hexec]
      rfl
    rw [hstep]
    exact h.grant (hfree a (List.mem_singleton_self a)) hfd hnew
  · simp only [StepCorrect, hexec]
    refine Or.inr ⟨[fd], tid, stat, rfl, ?_⟩
    intro u hu
    rw [List.mem_singleton] at hu
    subst hu
    exact ⟨(owned_eq_some.mp (owned_of_lt hfd)).1, by simp [Kernel.grant]⟩

theorem call_child (h : Invariant s) {c : Opening} {tid : Nat} {slots : List Nat}
    (hlegal : s.Legal types (.call c (.child tid) slots)) :
    Invariant (s.exec types (.call c (.child tid) slots)) ∧
      StepCorrect types s (.call c (.child tid) slots) := by
  obtain ⟨sys, hchild, hopens, hfork⟩ := legal_call hlegal
  obtain rfl := hfork hchild
  obtain ⟨-, hslots, -, hfree⟩ := hlegal
  obtain ⟨a, rfl⟩ := List.length_eq_one_iff.mp hslots
  have hexec := procFork_exec_child types s.kernel tid
  constructor
  · have hstep : s.exec types (.call .procFork (.child tid) [a]) =
        ⟨s.kernel, s.objects.place a UniqueFd.empty⟩ := by
      simp only [Process.exec, hexec]
      rfl
    rw [hstep]
    exact h.place_empty (hfree a (List.mem_singleton_self a))
  · simp only [StepCorrect, hexec]
    exact Or.inl ⟨tid, rfl⟩

theorem destroy_correct (h : Invariant s) {a : Nat} (ha : a ∈ s.objects.live) :
    StepCorrect types s (.destroy a) := by
  have hobj : s.held a = (s.objects.obj a).owned := heldAt_of_mem _ _ ha
  simp only [StepCorrect]
  split
  · rename_i hheld
    exact destroy_exec_none (hobj.symm.trans hheld) s.kernel
  · rename_i fd hheld
    have hopen := h.held_open hheld
    exact ⟨hopen, destroy_exec_some (hobj.symm.trans hheld) hopen⟩

theorem invariant_exec {op : Op} (h : Invariant s) (hlegal : s.Legal types op)
    (hop : ¬ IsCreate2Success op) :
    Invariant (s.exec types op) ∧ StepCorrect types s op := by
  cases op with
  | call c d slots =>
      cases d with
      | failure errno contents =>
          obtain ⟨hsame, hcorrect⟩ := call_failure hlegal
          rw [hsame]
          exact ⟨h, hcorrect⟩
      | success fresh tid stat =>
          refine call_success h ?_ hlegal
          rintro ft rfl
          exact hop trivial
      | child tid => exact call_child h hlegal
  | moveConstruct dst src => exact ⟨h.moveConstruct hlegal.1 hlegal.2, trivial⟩
  | moveAssign dst src => exact ⟨h.moveAssign hlegal.1 hlegal.2, trivial⟩
  | destroy a => exact ⟨h.destroy hlegal, destroy_correct h hlegal⟩

theorem create2_unowned (h : Invariant s) {ft : EnumClass .filetype} {fresh slots : List Nat}
    {tid : Nat} {stat : Sockstat}
    (hlegal : s.Legal types (.call (.create2 ft) (.success fresh tid stat) slots)) :
    ∃ fd ∈ (s.exec types (.call (.create2 ft) (.success fresh tid stat) slots)).kernel.opened,
      ∀ j, (s.exec types (.call (.create2 ft) (.success fresh tid stat) slots)).held j ≠
        some fd := by
  obtain ⟨sys, ⟨hlength, hnodup, hfresh⟩, hopens, -⟩ := legal_call hlegal
  obtain ⟨-, hslots, -, -⟩ := hlegal
  rw [hopens] at hlength
  obtain ⟨fd1, fd2, rfl⟩ := List.length_eq_two.mp hlength
  obtain ⟨a, b, rfl⟩ := List.length_eq_two.mp hslots
  have hexec := create2_exec_success types ft s.kernel fd1 fd2 tid stat
  have hstep : s.exec types (.call (.create2 ft) (.success [fd1, fd2] tid stat) [a, b]) =
      ⟨s.kernel.grant [fd1, fd2], (s.objects.place a ⟨⟨noFd⟩⟩).place b ⟨⟨fd2⟩⟩⟩ := by
    simp only [Process.exec, hexec]
    rfl
  have hfd2 := (hfresh fd2 (by simp)).1
  have hheld : Process.held ⟨s.kernel.grant [fd1, fd2],
        (s.objects.place a ⟨⟨noFd⟩⟩).place b ⟨⟨fd2⟩⟩⟩ =
      Function.update (Function.update s.held a none) b (some fd2) := by
    rw [← owned_of_lt hfd2, Process.held, heldAt_place, heldAt_place]
    rfl
  rw [hstep]
  refine ⟨fd1, by simp [Kernel.grant], fun j hj => ?_⟩
  rw [hheld] at hj
  have hnew : fd1 ∉ (s.kernel.opened : Set Nat) :=
    fun hmem => (hfresh fd1 (by simp)).2 (h.opened hmem)
  rcases eq_or_ne j b with rfl | hjb
  · rw [Function.update_self, Option.some.injEq] at hj
    simp [hj] at hnodup
  · rw [Function.update_of_ne hjb] at hj
    rcases eq_or_ne j a with rfl | hja
    · simp at hj
    · rw [Function.update_of_ne hja] at hj
      exact h.owned.unheld hnew j hj

theorem not_isCreate2Success {op : Op} (h : Invariant s) (hlegal : s.Legal types op)
    (howned : Owned (s.exec types op)) : ¬ IsCreate2Success op := by
  intro hop
  cases op with
  | call c d slots =>
      cases c with
      | create2 ft =>
          cases d with
          | success fresh tid stat =>
              obtain ⟨fd, hopened, hnobody⟩ := create2_unowned h hlegal
              obtain ⟨j, hj, -⟩ := howned.owner fd hopened
              exact hnobody j hj
          | _ => exact hop
      | _ => exact hop
  | _ => exact hop

end Steps

def after (descriptors : Finset Nat) (bytes : Nat → UniqueFd) (ops : List Op) (n : Nat) :
    Process :=
  run (Process.exec types) (Process.start descriptors bytes) (ops.take n)

def LegalRun (descriptors : Finset Nat) (bytes : Nat → UniqueFd) (ops : List Op) : Prop :=
  Along (Process.exec types) (Process.Legal types) (Process.start descriptors bytes) ops

instance (descriptors : Finset Nat) (bytes : Nat → UniqueFd) (ops : List Op) :
    Decidable (LegalRun types descriptors bytes ops) :=
  inferInstanceAs (Decidable (Along _ _ _ _))

/-- Ownership over a whole run: after every step each opened descriptor has its
owner, and every step is correct. -/
def OwnedThroughout (descriptors : Finset Nat) (bytes : Nat → UniqueFd) (ops : List Op) : Prop :=
  (∀ n, Owned (after types descriptors bytes ops n)) ∧
    Along (Process.exec types) (StepCorrect types) (Process.start descriptors bytes) ops

variable {types}

theorem ownedThroughout_iff (descriptors : Finset Nat) (bytes : Nat → UniqueFd)
    (ops : List Op) (hlegal : LegalRun types descriptors bytes ops) :
    OwnedThroughout types descriptors bytes ops ↔ ∀ op ∈ ops, ¬ IsCreate2Success op := by
  have hstart := invariant_start descriptors bytes
  constructor
  · rintro ⟨howned, -⟩
    refine along_forall_iff.mp (along_of_good_invariant ?_ ?_ hstart hlegal howned)
    · intro s op hinv hop hsafe
      exact (invariant_exec hinv hop hsafe).1
    · intro s op hinv hop howned
      exact not_isCreate2Success hinv hop howned
  · intro hops
    have hboth := hlegal.and (along_forall_iff.mpr hops)
    have hstep : ∀ s op, Invariant s → s.Legal types op ∧ ¬ IsCreate2Success op →
        Invariant (s.exec types op) ∧ StepCorrect types s op :=
      fun s op hinv hop => invariant_exec hinv hop.1 hop.2
    refine ⟨fun n => ?_, along_of_invariant hstep hstart hboth⟩
    exact (run_invariant (fun s op hinv hop => (hstep s op hinv hop).1) hstart
      (hboth.take n)).owned

def header : TypesHeader := ⟨1, 1, 28, by decide, by decide⟩

def socketProgram : List Op :=
  [.call (.create1 ⟨35⟩) (.success [3] 0 default) [100],
    .call (.create2 ⟨35⟩) (.failure 24 []) [200, 300],
    .call (.dup ⟨3⟩) (.success [5] 0 default) [200],
    .moveConstruct 300 100, .moveAssign 200 300, .call .procFork (.child 7) [400],
    .destroy 200, .destroy 400]

theorem ownedThroughout_iff_socketProgram :
    OwnedThroughout header {0, 1, 2} (fun _ => UniqueFd.empty) socketProgram ↔
      ∀ op ∈ socketProgram, ¬ IsCreate2Success op :=
  ownedThroughout_iff _ _ socketProgram (by decide)

def create2Program : List Op :=
  [.call (.create2 ⟨35⟩) (.success [3, 4] 0 default) [100, 200], .destroy 100, .destroy 200]

/-- After a successful `create2` and the destruction of both results descriptor
`3` is still open, and already before that nobody held it. -/
theorem create2Program_not_owned :
    LegalRun header {0, 1, 2} (fun _ => UniqueFd.empty) create2Program ∧
      3 ∈ (after header {0, 1, 2} (fun _ => UniqueFd.empty) create2Program 3).kernel.opened ∧
      ¬ OwnedThroughout header {0, 1, 2} (fun _ => UniqueFd.empty) create2Program := by
  refine ⟨by decide, by decide, ?_⟩
  rintro ⟨howned, -⟩
  obtain ⟨a, ha, -⟩ := (howned 3).owner 3 (by decide)
  have hlive : (after header {0, 1, 2} (fun _ => UniqueFd.empty) create2Program 3).objects.live =
      [] := by decide
  rw [Process.held, heldAt_of_not_mem _ _ (by simp [hlive])] at ha
  cases ha

end CloudabiCpp.Wrappers.DescriptorOwnership

import CloudabiCpp.Wrappers.Confinement
import CloudabiCpp.Wrappers.DescriptorOwnership

/-!
Descriptors as capabilities. The kernel keeps for every number the object it
refers to, and gives out a number again once it is closed. A program that keeps
its descriptors in `unique_fd` objects need not think of numbers: each of its
owners simply has an object of the kernel, or nothing.
-/

namespace CloudabiCpp.Wrappers.Capabilities

open CloudabiCpp.Lib.Interaction
open CloudabiCpp.Lib.LiveObjects
open CloudabiCpp.Lib.Ownership
open CloudabiCpp.Lib.Runs
open CloudabiCpp.Wrappers.Syscalls
open CloudabiCpp.Wrappers.FdImpl
open CloudabiCpp.Wrappers.DescriptorRuns
open CloudabiCpp.Wrappers.DescriptorOwnership
open CloudabiCpp.Wrappers.Calls
open CloudabiCpp.Wrappers.Confinement

variable {Obj : Type}

/-- What the program does. All but `acquire` speak of owners, not of numbers;
`acquire` opens one descriptor, for an object of the kernel's choice. -/
inductive Action (Obj : Type) where
  | acquire (c : Opening) (d : Decision) (object : Obj) (slot : Nat)
  | dup (a : Nat) (d : Decision) (slot : Nat)
  | replace (dst src : Nat)
  | moveConstruct (dst src : Nat)
  | moveAssign (dst src : Nat)
  | destroy (a : Nat)

/-- A process and the objects its kernel has at the numbers. -/
structure Machine (Obj : Type) where
  process : Process
  table : Nat → Obj

namespace Machine

/-- `cloudabi_sys_fd_replace`: the number `target` now refers to what `source`
refers to. -/
def answerReplace (k : Kernel) (table : Nat → Obj) : Syscall → Reply × (Nat → Obj)
  | .fdReplace source target =>
      if source ∈ k.descriptors ∧ target ∈ k.descriptors then
        (⟨0, []⟩, Function.update table target (table source))
      else (⟨1, []⟩, table)
  | _ => (⟨1, []⟩, table)

/-- The object is entered under the number that the kernel gave out. -/
def enter (table : Nat → Obj) (object : Obj) : Decision → Nat → Obj
  | .success fresh _ _ => fresh.foldl (fun t fd => Function.update t fd object) table
  | _ => table

variable (types : TypesHeader)

def open1 (m : Machine Obj) (c : Opening) (d : Decision) (object : Obj) (slot : Nat) :
    Machine Obj :=
  ⟨m.process.exec types (.call c d [slot]), enter m.table object d⟩

def held (m : Machine Obj) (a : Nat) : Fd := (m.process.objects.obj a).held

def exec (m : Machine Obj) : Action Obj → Machine Obj
  | .acquire c d object slot => m.open1 types c d object slot
  | .dup a d slot => m.open1 types (.dup (m.held a)) d (m.table (m.held a).fd_) slot
  | .replace dst src =>
      ⟨m.process, (((m.held dst).replace (m.held src)).exec (answerReplace m.process.kernel)
        m.table).2⟩
  | .moveConstruct dst src => ⟨m.process.exec types (.moveConstruct dst src), m.table⟩
  | .moveAssign dst src => ⟨m.process.exec types (.moveAssign dst src), m.table⟩
  | .destroy a => ⟨m.process.exec types (.destroy a), m.table⟩

/-- The kernel duplicates no number that is not open. -/
def Dups (m : Machine Obj) (a : Nat) : Decision → Prop
  | .success _ _ _ => (m.held a).fd_ ∈ m.process.kernel.descriptors
  | _ => True

/-- A number that is duplicated without an owner, as that of an inherited descriptor. -/
def SameObject (m : Machine Obj) (object : Obj) : Opening → Prop
  | .dup self => object = m.table self.fd_
  | _ => True

def Legal (m : Machine Obj) : Action Obj → Prop
  | .acquire c d object slot =>
      m.process.Legal types (.call c d [slot]) ∧ m.SameObject object c
  | .dup a d slot =>
      m.process.Legal types (.call (.dup (m.held a)) d [slot]) ∧
        a ∈ m.process.objects.live ∧ m.Dups a d
  | .replace dst src => dst ∈ m.process.objects.live ∧ src ∈ m.process.objects.live
  | .moveConstruct dst src => m.process.Legal types (.moveConstruct dst src)
  | .moveAssign dst src => m.process.Legal types (.moveAssign dst src)
  | .destroy a => m.process.Legal types (.destroy a)

instance (m : Machine Obj) (a : Nat) : (d : Decision) → Decidable (m.Dups a d)
  | .success _ _ _ => inferInstanceAs (Decidable (_ ∈ m.process.kernel.descriptors))
  | .failure _ _ | .child _ => isTrue trivial

instance [DecidableEq Obj] (m : Machine Obj) (object : Obj) :
    (c : Opening) → Decidable (m.SameObject object c)
  | .dup self => inferInstanceAs (Decidable (object = m.table self.fd_))
  | .create1 _ | .create2 _ | .fileOpen _ _ _ _ _ _ _ | .sockAccept _ | .procFork =>
      isTrue trivial

instance [DecidableEq Obj] (m : Machine Obj) :
    (act : Action Obj) → Decidable (m.Legal types act)
  | .acquire c _ object _ => inferInstanceAs (Decidable (_ ∧ m.SameObject object c))
  | .dup a d _ => inferInstanceAs (Decidable (_ ∧ _ ∧ m.Dups a d))
  | .replace _ _ => inferInstanceAs (Decidable (_ ∧ _))
  | .moveConstruct dst src =>
      inferInstanceAs (Decidable (m.process.Legal types (.moveConstruct dst src)))
  | .moveAssign dst src =>
      inferInstanceAs (Decidable (m.process.Legal types (.moveAssign dst src)))
  | .destroy a => inferInstanceAs (Decidable (m.process.Legal types (.destroy a)))

def start (descriptors : Finset Nat) (bytes : Nat → UniqueFd) (table : Nat → Obj) :
    Machine Obj :=
  ⟨Process.start descriptors bytes, table⟩

end Machine

/-- The owners and what each has: no numbers, no kernel. -/
structure Holders (Obj : Type) where
  live : List Nat
  holds : Nat → Option Obj

namespace Holders

def place (s : Holders Obj) (a : Nat) (x : Option Obj) : Holders Obj :=
  ⟨a :: s.live, Function.update s.holds a x⟩

/-- A new owner, which in the child of a fork has nothing. -/
def placeOpened (s : Holders Obj) (slot : Nat) (object : Option Obj) :
    Decision → Holders Obj
  | .failure _ _ => s
  | .success _ _ _ => s.place slot object
  | .child _ => s.place slot none

def exec (s : Holders Obj) : Action Obj → Holders Obj
  | .acquire _ d object slot => s.placeOpened slot (some object) d
  | .dup a d slot => s.placeOpened slot (s.holds a) d
  | .replace dst src =>
      match s.holds dst, s.holds src with
      | some _, some object => ⟨s.live, Function.update s.holds dst (some object)⟩
      | _, _ => s
  | .moveConstruct dst src =>
      ⟨dst :: s.live, Function.update (Function.update s.holds src none) dst (s.holds src)⟩
  | .moveAssign dst src =>
      ⟨s.live, Function.update (Function.update s.holds src none) dst (s.holds src)⟩
  | .destroy a => ⟨s.live.erase a, Function.update s.holds a none⟩

def start : Holders Obj := ⟨[], fun _ => none⟩

end Holders

structure Refines (m : Machine Obj) (s : Holders Obj) : Prop where
  invariant : Invariant m.process
  numbers : noFd ∉ m.process.kernel.descriptors
  live : s.live = m.process.objects.live
  holds : s.holds = resolve m.table m.process.held

theorem refines_start {descriptors : Finset Nat} (hnumbers : noFd ∉ descriptors)
    (bytes : Nat → UniqueFd) (table : Nat → Obj) :
    Refines (Machine.start descriptors bytes table) Holders.start where
  invariant := invariant_start descriptors bytes
  numbers := hnumbers
  live := rfl
  holds := by
    funext a
    simp [Holders.start, Machine.start, resolve, Process.held, heldAt, Process.start]

section Calls

variable {types : TypesHeader} {s : Process} {c : Opening} {slot : Nat}

theorem exec_success {fresh : List Nat} {tid : Nat} {stat : Sockstat}
    (hlegal : s.Legal types (.call c (.success fresh tid stat) [slot])) :
    ∃ fd, fresh = [fd] ∧ fd < noFd ∧ fd ∉ s.kernel.descriptors ∧
      s.exec types (.call c (.success fresh tid stat) [slot]) =
        ⟨s.kernel.grant [fd], s.objects.place slot ⟨⟨fd⟩⟩⟩ := by
  obtain ⟨sys, ⟨hlength, -, hfresh⟩, hopens, -⟩ := legal_call hlegal
  have hresults : 1 = c.results := hlegal.2.1
  have hc : ∀ ft, c ≠ .create2 ft := by
    rintro ft rfl
    cases hresults
  rw [hopens, ← hresults] at hlength
  obtain ⟨fd, rfl⟩ := List.length_eq_one_iff.mp hlength
  obtain ⟨hfd, hnew⟩ := hfresh fd (List.mem_singleton_self fd)
  refine ⟨fd, rfl, hfd, hnew, ?_⟩
  simp only [Process.exec, wrapper_exec_success types hc]
  rfl

theorem exec_child {tid : Nat} (hlegal : s.Legal types (.call c (.child tid) [slot])) :
    s.exec types (.call c (.child tid) [slot]) =
      ⟨s.kernel, s.objects.place slot UniqueFd.empty⟩ := by
  obtain ⟨sys, hchild, -, hfork⟩ := legal_call hlegal
  obtain rfl := hfork hchild
  simp only [Process.exec, procFork_exec_child types]
  rfl

theorem not_isCreate2Success_of_one {d : Decision} (hlegal : s.Legal types (.call c d [slot])) :
    ¬ IsCreate2Success (.call c d [slot]) := by
  intro hop
  have hresults : 1 = c.results := hlegal.2.1
  cases c with
  | create2 ft => cases hresults
  | _ => exact hop

theorem descriptors_destroy (u : UniqueFd) (k : Kernel) :
    (u.destroy.exec Kernel.answerClose k).2.descriptors ⊆ k.descriptors := by
  unfold UniqueFd.destroy
  split
  · rw [Program.exec_map, Fd.close, errorOf, Program.exec_ask, Program.exec_done,
      Kernel.answerClose]
    split
    · exact Finset.erase_subset _ _
    · exact Finset.Subset.refl _
  · exact Finset.Subset.refl _

end Calls

namespace Refines

variable {types : TypesHeader} {m : Machine Obj} {s : Holders Obj}

theorem place (h : Refines m s) {k : Kernel} {table : Nat → Obj} {u : UniqueFd} {slot : Nat}
    (hinvariant : Invariant ⟨k, m.process.objects.place slot u⟩)
    (hnumbers : noFd ∉ k.descriptors)
    (htable : resolve table m.process.held = resolve m.table m.process.held) :
    Refines ⟨⟨k, m.process.objects.place slot u⟩, table⟩ (s.place slot (u.owned.map table)) where
  invariant := hinvariant
  numbers := hnumbers
  live := congrArg (List.cons slot) h.live
  holds := by
    have hheld : Process.held ⟨k, m.process.objects.place slot u⟩ =
        Function.update m.process.held slot u.owned :=
      heldAt_place UniqueFd.owned m.process.objects slot u
    rw [hheld, resolve_update, htable, ← h.holds]
    rfl

theorem open1 (h : Refines m s) {c : Opening} {d : Decision} {slot : Nat}
    (hlegal : m.process.Legal types (.call c d [slot])) {object : Obj} {x : Option Obj}
    (hx : ∀ fresh tid stat, d = .success fresh tid stat → x = some object) :
    Refines (m.open1 types c d object slot) (s.placeOpened slot x d) := by
  have hinvariant := (invariant_exec h.invariant hlegal (not_isCreate2Success_of_one hlegal)).1
  cases d with
  | failure errno contents =>
      have hmachine : m.open1 types c (.failure errno contents) object slot = m := by
        rw [Machine.open1, (call_failure hlegal).1]
        rfl
      rwa [hmachine]
  | success fresh tid stat =>
      obtain ⟨fd, rfl, hfd, hnew, hexec⟩ := exec_success hlegal
      have hunheld : fd ∉ (m.process.kernel.opened : Set Nat) :=
        fun hopened => hnew (h.invariant.opened hopened)
      have hnumbers : noFd ∉ (m.process.kernel.grant [fd]).descriptors := by
        simpa [Kernel.grant, (Nat.ne_of_lt hfd).symm] using h.numbers
      rw [hexec] at hinvariant
      have hplaced := h.place hinvariant hnumbers
        (h.invariant.owned.resolve_unheld hunheld m.table object)
      rw [owned_of_lt hfd, Option.map_some, Function.update_self] at hplaced
      rw [hx _ _ _ rfl, Machine.open1, hexec]
      exact hplaced
  | child tid =>
      rw [exec_child hlegal] at hinvariant
      rw [Machine.open1, exec_child hlegal]
      exact h.place hinvariant h.numbers rfl

/-- Moving what `src` has leaves `src` with nothing, in numbers and in objects. -/
theorem holds_move (h : Refines m s) (dst src : Nat) :
    Function.update (Function.update s.holds src none) dst (s.holds src) =
      resolve m.table (Function.update (Function.update m.process.held src none) dst
        (m.process.held src)) := by
  rw [resolve_update, resolve_update, h.holds]
  rfl

theorem moveConstruct (h : Refines m s) {dst src : Nat}
    (hlegal : m.process.Legal types (.moveConstruct dst src)) :
    Refines (m.exec types (.moveConstruct dst src)) (s.exec (.moveConstruct dst src)) where
  invariant := (invariant_exec h.invariant hlegal id).1
  numbers := h.numbers
  live := congrArg (List.cons dst) h.live
  holds := by
    have hheld := @heldAt_moveConstruct _ _ UniqueFd.owned m.process.objects dst src hlegal.2 _
      owned_empty
    exact (h.holds_move dst src).trans (congrArg (resolve m.table) hheld.symm)

theorem moveAssign (h : Refines m s) {dst src : Nat}
    (hlegal : m.process.Legal types (.moveAssign dst src)) :
    Refines (m.exec types (.moveAssign dst src)) (s.exec (.moveAssign dst src)) where
  invariant := (invariant_exec h.invariant hlegal id).1
  numbers := fun hmem => h.numbers (descriptors_destroy _ _ hmem)
  live := h.live
  holds := by
    have hheld := heldAt_moveAssign UniqueFd.owned m.process.objects hlegal.1 hlegal.2 owned_empty
    exact (h.holds_move dst src).trans (congrArg (resolve m.table) hheld.symm)

theorem destroy (h : Refines m s) {a : Nat} (hlegal : m.process.Legal types (.destroy a)) :
    Refines (m.exec types (.destroy a)) (s.exec (.destroy a)) where
  invariant := (invariant_exec h.invariant hlegal id).1
  numbers := fun hmem => h.numbers (descriptors_destroy _ _ hmem)
  live := congrArg (List.erase · a) h.live
  holds := by
    have hheld := heldAt_remove UniqueFd.owned m.process.objects h.invariant.live a
    change Function.update s.holds a none =
      resolve m.table (heldAt UniqueFd.owned (m.process.objects.remove a))
    rw [hheld, h.holds]
    exact (resolve_update m.table m.process.held a none).symm

/-- A live owner's number is open exactly if it is no `-1`. -/
theorem mem_descriptors_iff (h : Refines m s) {a : Nat} (ha : a ∈ m.process.objects.live) :
    (m.held a).fd_ ∈ m.process.kernel.descriptors ↔ m.process.held a = some (m.held a).fd_ := by
  have hobj : m.process.held a = (m.process.objects.obj a).owned := heldAt_of_mem _ _ ha
  constructor
  · intro hopen
    have hne : (m.held a).fd_ ≠ noFd := by
      rintro heq
      exact h.numbers (heq ▸ hopen)
    rw [hobj, owned_eq_some]
    exact ⟨bne_iff_ne.mpr hne, rfl⟩
  · exact h.invariant.held_open

theorem held_eq_none (h : Refines m s) {a : Nat} (ha : a ∈ m.process.objects.live)
    (hclosed : (m.held a).fd_ ∉ m.process.kernel.descriptors) : m.process.held a = none := by
  have hobj : m.process.held a = (m.process.objects.obj a).owned := heldAt_of_mem _ _ ha
  rw [h.mem_descriptors_iff ha, hobj, owned_eq_some, not_and_or] at hclosed
  rw [hobj, owned_eq_none]
  exact Bool.eq_false_iff.mpr (hclosed.resolve_right fun hne => hne rfl)

theorem replace (h : Refines m s) {dst src : Nat} (hdst : dst ∈ m.process.objects.live)
    (hsrc : src ∈ m.process.objects.live) :
    Refines (m.exec types (.replace dst src)) (s.exec (.replace dst src)) := by
  by_cases hopen : (m.held src).fd_ ∈ m.process.kernel.descriptors ∧
      (m.held dst).fd_ ∈ m.process.kernel.descriptors
  · have hheldSrc := (h.mem_descriptors_iff hsrc).mp hopen.1
    have hheldDst := (h.mem_descriptors_iff hdst).mp hopen.2
    have hmachine : m.exec types (.replace dst src) =
        ⟨m.process, Function.update m.table (m.held dst).fd_ (m.table (m.held src).fd_)⟩ := by
      simp [Machine.exec, Fd.replace, errorOf, Machine.answerReplace, hopen]
    have hholders : s.exec (.replace dst src) =
        ⟨s.live, Function.update s.holds dst (some (m.table (m.held src).fd_))⟩ := by
      simp [Holders.exec, h.holds, resolve, hheldSrc, hheldDst]
    rw [hmachine, hholders]
    refine ⟨h.invariant, h.numbers, h.live, ?_⟩
    rw [h.holds]
    exact (h.invariant.owned.resolve_held hheldDst m.table _).symm
  · have hmachine : m.exec types (.replace dst src) = m := by
      simp [Machine.exec, Fd.replace, errorOf, Machine.answerReplace, hopen]
    have hholders : s.exec (.replace dst src) = s := by
      rcases not_and_or.mp hopen with hclosed | hclosed
      · simp [Holders.exec, h.holds, resolve, h.held_eq_none hsrc hclosed]
      · simp [Holders.exec, h.holds, resolve, h.held_eq_none hdst hclosed]
    rwa [hmachine, hholders]

theorem exec (h : Refines m s) {act : Action Obj} (hlegal : m.Legal types act) :
    Refines (m.exec types act) (s.exec act) := by
  cases act with
  | acquire c d object slot => exact h.open1 hlegal.1 fun _ _ _ _ => rfl
  | dup a d slot =>
      obtain ⟨hlegal, ha, hdups⟩ := hlegal
      refine h.open1 hlegal ?_
      rintro fresh tid stat rfl
      have hheld := (h.mem_descriptors_iff ha).mp hdups
      simp [h.holds, resolve, hheld]
  | replace dst src => exact h.replace hlegal.1 hlegal.2
  | moveConstruct dst src => exact h.moveConstruct hlegal
  | moveAssign dst src => exact h.moveAssign hlegal
  | destroy a => exact h.destroy hlegal

/-- A call that is given what its owners hold acts on objects they have. -/
theorem acts_on_held (h : Refines m s) {c : Call} (hc : ¬ c.IsMemMap) {owners : List Nat}
    (hfds : ∀ n ∈ c.fds, ∃ a ∈ owners, m.process.held a = some n) {sys : Syscall}
    (hissued : c.Issues types sys) {n : Nat} (hn : n ∈ sys.descriptors) :
    ∃ a ∈ owners, s.holds a = some (m.table n) := by
  obtain ⟨a, ha, hheld⟩ := hfds n (descriptors_subset_fds types c sys hissued hc hn)
  refine ⟨a, ha, ?_⟩
  simp [h.holds, resolve, hheld]

end Refines

/-- Over any run, however the kernel gives out its numbers: owners have the
objects that the machine without numbers says, and whatever is called through
them acts on no others. -/
theorem owners_have_capabilities (types : TypesHeader) {descriptors : Finset Nat}
    (hnumbers : noFd ∉ descriptors) (bytes : Nat → UniqueFd) (table : Nat → Obj)
    {acts : List (Action Obj)}
    (hlegal : Along (Machine.exec types) (Machine.Legal types)
      (Machine.start descriptors bytes table) acts) :
    let m := run (Machine.exec types) (Machine.start descriptors bytes table) acts
    let s := run Holders.exec Holders.start acts
    s.live = m.process.objects.live ∧ (∀ a, s.holds a = (m.process.held a).map m.table) ∧
      ∀ (c : Call) (owners : List Nat), ¬ c.IsMemMap →
        (∀ n ∈ c.fds, ∃ a ∈ owners, m.process.held a = some n) →
          ∀ sys, c.Issues types sys → ∀ n ∈ sys.descriptors,
            ∃ a ∈ owners, s.holds a = some (m.table n) := by
  intro m s
  let rel : Holders Obj → Machine Obj → Prop := fun holders machine => Refines machine holders
  have hstep : ∀ (holders : Holders Obj) (machine : Machine Obj) (act : Action Obj),
      rel holders machine → machine.Legal types act →
        rel (holders.exec act) (machine.exec types act) :=
    fun _ _ _ hrefines hact => hrefines.exec hact
  have hrefines : Refines m s :=
    run_simulates hstep (refines_start hnumbers bytes table) hlegal
  refine ⟨hrefines.live, congrFun hrefines.holds, ?_⟩
  intro c owners hc hfds sys hissued n hn
  exact hrefines.acts_on_held hc hfds hissued hn

/-- Descriptor `3` is closed and given out again for another object. -/
def reusingProgram : List (Action Nat) :=
  [.acquire (.create1 ⟨35⟩) (.success [3] 0 default) 70 100,
    .dup 100 (.success [4] 0 default) 200,
    .destroy 100,
    .acquire .procFork (.success [3] 9 default) 71 300,
    .replace 200 300,
    .moveConstruct 400 200,
    .moveAssign 300 400]

example : ((run Holders.exec Holders.start reusingProgram).holds 300) = some 71 := by decide

theorem owners_have_capabilities_reusingProgram :
    let m := run (Machine.exec header)
      (Machine.start {0, 1, 2} (fun _ => UniqueFd.empty) fun _ => 0) reusingProgram
    let s := run Holders.exec Holders.start reusingProgram
    s.live = m.process.objects.live ∧ (∀ a, s.holds a = (m.process.held a).map m.table) ∧
      ∀ (c : Call) (owners : List Nat), ¬ c.IsMemMap →
        (∀ n ∈ c.fds, ∃ a ∈ owners, m.process.held a = some n) →
          ∀ sys, c.Issues header sys → ∀ n ∈ sys.descriptors,
            ∃ a ∈ owners, s.holds a = some (m.table n) :=
  owners_have_capabilities header (by decide) _ _ (by decide)

end CloudabiCpp.Wrappers.Capabilities

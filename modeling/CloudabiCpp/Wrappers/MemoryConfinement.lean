import CloudabiCpp.Lib.Runs
import CloudabiCpp.Wrappers.Calls

/-!
Which memory the wrappers give the kernel access to: of every array no more than
its elements, of every byte range no more than the caller passed, and the locks and
condition variables that subscriptions point to. The local variables behind the output
pointers are no part of this memory.
-/

namespace CloudabiCpp.Wrappers.MemoryConfinement

open CloudabiCpp.Lib.Interaction
open CloudabiCpp.Lib.Runs
open CloudabiCpp.Wrappers.Syscalls
open CloudabiCpp.Wrappers.FdImpl
open CloudabiCpp.Wrappers.Calls

def Covers (b : Buffer) (address : Nat) : Prop :=
  b.data ≤ address ∧ address < b.data + b.size

def Within (b outer : Buffer) : Prop :=
  outer.data ≤ b.data ∧ b.data + b.size ≤ outer.data + outer.size

theorem within_refl (b : Buffer) : Within b b :=
  ⟨Nat.le_refl _, Nat.le_refl _⟩

theorem Within.covers {b outer : Buffer} (h : Within b outer) {address : Nat}
    (hb : Covers b address) : Covers outer address :=
  ⟨Nat.le_trans h.1 hb.1, Nat.lt_of_lt_of_le hb.2 h.2⟩

/-- Elements of an array, of which `n` are used. -/
def elements (data n elementSize : Nat) : Buffer := ⟨data, n * elementSize⟩

theorem elements_within (data elementSize : Nat) {n m : Nat} (hnm : n ≤ m) :
    Within (elements data n elementSize) (elements data m elementSize) :=
  ⟨Nat.le_refl _, Nat.add_le_add_left (Nat.mul_le_mul_right _ hnm) _⟩

/-- The sizes of the C types that the kernel writes through pointers, and of a page. -/
structure Sizes where
  event : Nat
  condvar : Nat
  lock : Nat
  page : Nat

/-- What a subscription points to, which `poll` locks, unlocks and wakes up. -/
def words (sizes : Sizes) (s : Subscription) : List Buffer :=
  match s.payload with
  | .condvar condvar lock _ _ => [⟨condvar, sizes.condvar⟩, ⟨lock, sizes.lock⟩]
  | .lock lock _ => [⟨lock, sizes.lock⟩]
  | _ => []

/-- The pages that a byte range touches: what is mapped, protected or unmapped for it. -/
def pages (sizes : Sizes) (b : Buffer) : Buffer :=
  let first := b.data / sizes.page
  let last := (b.data + b.size + sizes.page - 1) / sizes.page
  ⟨first * sizes.page, (last - first) * sizes.page⟩

section Access

variable (sizes : Sizes)

/-- The byte ranges that a system call only reads. -/
def reads : Syscall → List Buffer
  | .fdPwrite _ iov iovcnt _ _ | .fdWrite _ iov iovcnt _ => iov.take iovcnt
  | .fileCreate _ path pathlen _ | .fileOpen _ path pathlen _ _ _
  | .fileReadlink _ path pathlen _ _ _ | .fileStatGet _ path pathlen _
  | .fileStatPut _ path pathlen _ _ | .fileUnlink _ path pathlen _
  | .sockBind _ _ path pathlen | .sockConnect _ _ path pathlen => [⟨path, pathlen⟩]
  | .fileLink _ path1 path1len _ path2 path2len
  | .fileSymlink path1 path1len _ path2 path2len => [⟨path1, path1len⟩, ⟨path2, path2len⟩]
  | .fileRename _ old oldlen _ new newlen => [⟨old, oldlen⟩, ⟨new, newlen⟩]
  | .procExec _ data datalen _ _ => [⟨data, datalen⟩]
  | _ => []

/-- The byte ranges whose contents a system call may change. -/
def writes : Syscall → List Buffer
  | .fdPread _ iov iovcnt _ _ | .fdRead _ iov iovcnt _ => iov.take iovcnt
  | .fileReadlink _ _ _ buf buflen _ => [⟨buf, buflen⟩]
  | .poll subs out nsubscriptions _ =>
      elements out nsubscriptions sizes.event :: (subs.take nsubscriptions).flatMap (words sizes)
  | .pollFd _ subs nin out nout timeout _ =>
      elements out nout sizes.event :: (subs.take nin).flatMap (words sizes) ++
        words sizes timeout
  | .randomGet buf nbyte => [⟨buf, nbyte⟩]
  | .memMap addr len _ _ _ _ _ | .memAdvise addr len _ | .memProtect addr len _
  | .memSync addr len _ | .memUnmap addr len => [pages sizes ⟨addr, len⟩]
  | _ => []

/-- The kernel is told of no more elements than the arrays have. -/
def CountsFit : Syscall → Prop
  | .fdPread _ iov iovcnt _ _ | .fdPwrite _ iov iovcnt _ _ | .fdRead _ iov iovcnt _
  | .fdWrite _ iov iovcnt _ => iovcnt ≤ iov.length
  | .poll subs _ nsubscriptions _ => nsubscriptions ≤ subs.length
  | .pollFd _ subs nin _ _ _ _ => nin ≤ subs.length
  | .procExec _ _ _ fds fdslen => fdslen ≤ fds.length
  | _ => True

/-- The byte ranges among the arguments that are `const`. -/
def inputs : Call → List Buffer
  | .pwriteRange _ iov _ | .writeRange _ iov | .writeList _ iov => iov
  | .pwrite _ iov _ | .write _ iov => [iov]
  | .fileCreate _ path _ | .fileOpen _ path _ _ _ _ _ | .fileReadlink _ path _
  | .fileStatGet _ path _ | .fileStatPut _ path _ _ _ | .fileUnlink _ path _
  | .sockBind _ _ path | .sockConnect _ _ path => [path]
  | .fileSymlink _ path contents => [path, contents]
  | .fileLink _ path1 _ path2 _ | .fileRename _ path1 _ path2 => [path1, path2]
  | .procExec _ data _ => [data]
  | _ => []

/-- The other byte ranges, those that subscriptions point to included; of a mapping, the
pages that it is asked for. -/
def outputs : Call → List Buffer
  | .preadRange _ iov _ | .readRange _ iov | .readList _ iov => iov
  | .pread _ iov _ | .read _ iov => [iov]
  | .fileReadlink _ _ buf | .randomGet buf => [buf]
  | .fdPoll _ input out timeout =>
      elements out.data out.size sizes.event :: input.flatMap (words sizes) ++ words sizes timeout
  | .poll input out => elements out.data out.size sizes.event :: input.flatMap (words sizes)
  | .fdMemMap _ len _ _ _ addr | .memMap len _ _ addr => [pages sizes ⟨addr, len⟩]
  | .memAdvise mem _ | .memProtect mem _ | .memSync mem _ | .memUnmap mem => [pages sizes mem]
  | _ => []

/-- Each of the ranges lies in one of the others. -/
def Among (bs outers : List Buffer) : Prop := ∀ b ∈ bs, ∃ outer ∈ outers, Within b outer

theorem among_of_subset {bs outers : List Buffer} (h : bs ⊆ outers) : Among bs outers :=
  fun b hb => ⟨b, h hb, within_refl b⟩

theorem among_cons {b outer : Buffer} {bs outers : List Buffer} (hb : Within b outer)
    (hbs : Among bs outers) : Among (b :: bs) (outer :: outers) := by
  rintro b' hb'
  rcases List.mem_cons.mp hb' with rfl | hb'
  · exact ⟨outer, List.mem_cons_self, hb⟩
  · obtain ⟨outer', houter, hwithin⟩ := hbs b' hb'
    exact ⟨outer', List.mem_cons_of_mem _ houter, hwithin⟩

/-- What the kernel may access lies in the arguments of the call. -/
structure Confines (c : Call) (s : Syscall) : Prop where
  counts : CountsFit s
  reads : Among (reads s) (inputs c)
  writes : Among (writes sizes s) (outputs sizes c)

theorem confines_of_subset {c : Call} {s : Syscall} (hcounts : CountsFit s)
    (hreads : reads s ⊆ inputs c) (hwrites : writes sizes s ⊆ outputs sizes c) :
    Confines sizes c s :=
  ⟨hcounts, among_of_subset hreads, among_of_subset hwrites⟩

theorem confines_of_issues (types : TypesHeader) {c : Call} {s : Syscall}
    (hissued : c.Issues types s) : Confines sizes c s := by
  cases c
  case poll input out =>
      simp only [Call.Issues, Call.program, issues_returning, FreeFunctions.poll] at hissued
      split at hissued
      · exact hissued.elim
      · rename_i hroom
        obtain rfl := (issues_resultOf _ _ _ _).mp hissued
        refine ⟨Nat.le_refl _, among_of_subset (List.nil_subset _), ?_⟩
        -- the guard makes room for one event for each subscription
        have hevents := elements_within out.data sizes.event (Nat.le_of_not_lt hroom)
        simp only [writes, outputs, List.take_length]
        exact among_cons hevents (among_of_subset (List.Subset.refl _))
  all_goals
      -- these are the overloads that call another one
      simp only [Call.Issues, Call.program, issues_codeOnly, issues_returning, Fd.pread,
        Fd.pwrite, Fd.read, Fd.readList, Fd.write, Fd.writeList, Fd.fileOpen,
        FreeFunctions.memMap] at hissued
      first
        | obtain rfl := (issues_errorOf _ _).mp hissued
        | obtain rfl := (issues_resultOf _ _ _ _).mp hissued
      apply confines_of_subset
      all_goals simp [CountsFit, reads, writes, inputs, outputs]

end Access

section Memory

variable {σ : Type} {sizes : Sizes}

/-- A kernel and the private memory of the process; addresses that are not mapped, or
mapped shared or from a file, have none. A system call changes it only where it may write;
where it maps elsewhere, nothing was mapped before. -/
structure MemoryKernel (σ : Type) (sizes : Sizes) where
  handle : σ → Syscall → Reply × σ
  memory : σ → Nat → Option UInt8
  keeps : ∀ k s address v, memory k address = some v →
    (∀ b ∈ writes sizes s, ¬ Covers b address) → memory (handle k s).2 address = some v

theorem MemoryKernel.keeps_of_issues (kernel : MemoryKernel σ sizes) {types : TypesHeader}
    {c : Call} {s : Syscall} (hissued : c.Issues types s) {k : σ} {address : Nat} {v : UInt8}
    (hv : kernel.memory k address = some v)
    (houtside : ∀ b ∈ outputs sizes c, ¬ Covers b address) :
    kernel.memory (kernel.handle k s).2 address = some v := by
  apply kernel.keeps k s address v hv
  intro b hb hcovers
  obtain ⟨outer, houter, hwithin⟩ := (confines_of_issues sizes types hissued).writes b hb
  exact houtside outer houter (hwithin.covers hcovers)

theorem MemoryKernel.keeps_exec (kernel : MemoryKernel σ sizes) {types : TypesHeader}
    {t : Session σ} {c : Call} {address : Nat} {v : UInt8}
    (hv : kernel.memory t.kernel address = some v)
    (houtside : ∀ b ∈ outputs sizes c, ¬ Covers b address) :
    kernel.memory (t.exec types kernel.handle c).kernel address = some v := by
  let inv : σ → Prop := fun k => kernel.memory k address = some v
  have hask : ∀ k s, (c.program types).Issues s → inv k → inv (kernel.handle k s).2 :=
    fun _ _ hissued hinv => kernel.keeps_of_issues hissued hinv houtside
  exact Program.exec_invariant hask hv

/-- Each system call so far was confined to the call that made it. -/
theorem confines_of_log (types : TypesHeader) (handle : σ → Syscall → Reply × σ) (k : σ)
    (calls : List Call) :
    ∀ e ∈ (run (Session.exec types handle) (Session.start k) calls).log,
      ∀ q ∈ e.made, Confines sizes e.call q.1 := by
  let inv : Session σ → Prop := fun t => ∀ e ∈ t.log, ∀ q ∈ e.made, Confines sizes e.call q.1
  have hstep : ∀ t c, inv t → True → inv (t.exec types handle c) := by
    intro t c hinv _ e he q hq
    rcases List.mem_append.mp he with hearlier | hlast
    · exact hinv e hearlier q hq
    · rw [List.mem_singleton.mp hlast] at hq ⊢
      exact confines_of_issues sizes types (Program.issues_of_mem_dialogue hq)
  have hany : Along (Session.exec types handle) (fun _ _ => True) (Session.start k) calls :=
    Along.of_mem (fun _ _ _ => trivial) _
  have hstart : inv (Session.start k) := by simp [inv, Session.start]
  exact run_invariant hstep hstart hany

instance (b : Buffer) (address : Nat) : Decidable (Covers b address) :=
  inferInstanceAs (Decidable (_ ∧ _))

def sizes64 : Sizes := ⟨32, 4, 4, 4096⟩

/-- Writes sevens wherever it may. -/
def sevens : MemoryKernel (Nat → Option UInt8) sizes64 where
  handle := fun memory s =>
    (⟨0, []⟩, fun address =>
      if ∃ b ∈ writes sizes64 s, Covers b address then some 7 else memory address)
  memory := id
  keeps := by
    intro k s address v hv houtside
    have hnone : ¬ ∃ b ∈ writes sizes64 s, Covers b address := by simpa using houtside
    exact (if_neg hnone).trans hv

/-- The second `poll` has one subscription and no room for its event, the last one may
change the lock that it waits for. -/
def bufferProgram : List Call :=
  [.read ⟨5⟩ ⟨100, 8⟩, .poll [] ⟨200, 1⟩, .poll [⟨0, 0, 0, .lock 300 0⟩] ⟨400, 0⟩,
    .poll [⟨0, 0, 0, .lock 300 0⟩] ⟨400, 1⟩]

end Memory

end CloudabiCpp.Wrappers.MemoryConfinement

import CloudabiCpp.Lib.Runs
import CloudabiCpp.Wrappers.Calls

/-!
What the wrappers are for: each call stands for one system call, is given that call's
own arguments, and returns its error code or the values that it stored. The system
calls are listed here once more, from the C declarations and the parameters of the
call, and the programs of the wrappers are then compared with the list. They agree with
it in all calls but two.
-/

namespace CloudabiCpp.Wrappers.Requests

open CloudabiCpp.Lib.Interaction
open CloudabiCpp.Lib.Runs
open CloudabiCpp.Wrappers.Syscalls
open CloudabiCpp.Wrappers.FdImpl
open CloudabiCpp.Wrappers.Calls

/-- The system call that a call stands for. Results go to `x` and `y`, and `unset` is
the file type in a status that only brings rights and flags. An anonymous mapping is
of no descriptor. -/
def request (types : TypesHeader) (x y : Local) (unset : Nat) : Call → Syscall
  | .close self => .fdClose self.number
  | .create1 ft => .fdCreate1 ft.repr x
  | .create2 ft => .fdCreate2 ft.repr x y
  | .datasync self => .fdDatasync self.number
  | .dup self => .fdDup self.number x
  | .preadRange self iov offset => .fdPread self.number iov iov.length offset x
  | .pread self iov offset => .fdPread self.number [iov] 1 offset x
  | .pwriteRange self iov offset => .fdPwrite self.number iov iov.length offset x
  | .pwrite self iov offset => .fdPwrite self.number [iov] 1 offset x
  | .readRange self iov | .readList self iov => .fdRead self.number iov iov.length x
  | .read self iov => .fdRead self.number [iov] 1 x
  | .writeRange self iov | .writeList self iov => .fdWrite self.number iov iov.length x
  | .write self iov => .fdWrite self.number [iov] 1 x
  | .replace self source => .fdReplace source.number self.number
  | .seek self offset wh => .fdSeek self.number offset wh.repr x
  | .statGet self => .fdStatGet self.number x
  | .statPut self stat flags => .fdStatPut self.number stat flags.repr
  | .sync self => .fdSync self.number
  | .fdMemMap self len off prot flags addr =>
      .memMap addr len prot.repr flags.repr self.number off x
  | .fileAdvise self offset len a => .fileAdvise self.number offset len a.repr
  | .fileAllocate self offset len => .fileAllocate self.number offset len
  | .fileCreate self path type => .fileCreate self.number path.data path.size type.repr
  | .fileOpen self path baseRights oflags fdflags inheritingRights followSymlinks =>
      .fileOpen (lookup types self followSymlinks) path.data path.size oflags.repr
        ⟨unset, fdflags.repr, baseRights.repr, inheritingRights.repr⟩ x
  | .fileReadlink self path buf =>
      .fileReadlink self.number path.data path.size buf.data buf.size x
  | .fileStatFget self => .fileStatFget self.number x
  | .fileStatGet self path followSymlinks =>
      .fileStatGet (lookup types self followSymlinks) path.data path.size x
  | .fileStatFput self stat flags => .fileStatFput self.number stat flags.repr
  | .fileStatPut self path stat flags followSymlinks =>
      .fileStatPut (lookup types self followSymlinks) path.data path.size stat flags.repr
  | .fileSymlink self path contents =>
      .fileSymlink contents.data contents.size self.number path.data path.size
  | .fileUnlink self path flags => .fileUnlink self.number path.data path.size flags.repr
  | .fdPoll self input out timeout =>
      .pollFd self.number input input.length out.data out.size timeout x
  | .procExec self data fds =>
      .procExec self.number data.data data.size (fds.map Fd.number) fds.length
  | .sockAccept self => .sockAccept self.number x y
  | .sockBind self dir path => .sockBind self.number dir.number path.data path.size
  | .sockConnect self dir path => .sockConnect self.number dir.number path.data path.size
  | .sockListen self bl => .sockListen self.number bl
  | .sockShutdown self how => .sockShutdown self.number how.repr
  | .sockStatGet self flags => .sockStatGet self.number x flags.repr
  | .fileLink fd1 path1 fd2 path2 followSymlinks =>
      .fileLink (lookup types fd1 followSymlinks) path1.data path1.size
        fd2.number path2.data path2.size
  | .fileRename fd1 path1 fd2 path2 =>
      .fileRename fd1.number path1.data path1.size fd2.number path2.data path2.size
  | .memAdvise mem a => .memAdvise mem.data mem.size a.repr
  | .memMap len prot flags addr => .memMap addr len prot.repr flags.repr noFd 0 x
  | .memProtect mem prot => .memProtect mem.data mem.size prot.repr
  | .memSync mem flags => .memSync mem.data mem.size flags.repr
  | .memUnmap mem => .memUnmap mem.data mem.size
  | .poll input out => .poll input out.data input.length x
  | .randomGet buf => .randomGet buf.data buf.size
  | .clockResGet clockId => .clockResGet clockId.repr x
  | .clockTimeGet clockId precision => .clockTimeGet clockId.repr precision x
  | .procFork => .procFork x y
  | .procRaise sig => .procRaise sig.repr
where
  lookup (types : TypesHeader) (fd : Fd) : (followSymlinks : Bool) → Lookup
    | true => ⟨fd.number, types.lookupSymlinkFollow⟩
    | false => ⟨fd.number, 0⟩

inductive StoredType where
  | word
  | fdstat
  | filestat
  | sockstat
  deriving DecidableEq

def storedType : Stored → StoredType
  | .word _ => .word
  | .fdstat _ => .fdstat
  | .filestat _ => .filestat
  | .sockstat _ => .sockstat

/-- What the output pointers of the C function point to. -/
def resultTypes : Syscall → List StoredType
  | .fdStatGet _ _ => [.fdstat]
  | .fileStatFget _ _ | .fileStatGet _ _ _ _ => [.filestat]
  | .sockAccept _ _ _ => [.sockstat, .word]
  | .sockStatGet _ _ _ => [.sockstat]
  | s => s.outs.map fun _ => .word

/-- The error code is passed on, and otherwise what was stored, if it is of the types
that the C function declares. -/
def Relayed (s : Syscall) (reply : Reply) (result : ErrorOr (List Stored)) : Prop :=
  (reply.errno ≠ 0 → result = .error reply.errno) ∧
    (reply.errno = 0 → reply.stored.map storedType = resultTypes s → result = .ok reply.stored)

/-- The free `poll` makes no system call if there is too little room for events. -/
def refused : Call → Bool
  | .poll input out => out.size < input.length
  | _ => false

def Faithful (types : TypesHeader) (e : Entry) : Prop :=
  match refused e.call with
  | true => e.made = [] ∧ e.result = .error types.inval
  | false => ∃ x y unset reply, x ≠ y ∧
      e.made = [(request types x y unset e.call, reply)] ∧
      Relayed (request types x y unset e.call) reply e.result

/-- `create2` names one variable for both descriptors, and `mem_map` the flag for
anonymous mappings as a descriptor. -/
def Deviates : Call → Prop
  | .create2 _ | .memMap _ _ _ _ => True
  | _ => False

/-- The program makes one system call and is done with what that relays. -/
def Relays (p : Wrapper (ErrorOr (List Stored))) (s : Syscall) : Prop :=
  ∃ next, p = .ask s next ∧ ∀ reply, ∃ result, next reply = .done result ∧ Relayed s reply result

theorem relays_codeOnly {s : Syscall} (hs : resultTypes s = []) :
    Relays (codeOnly (errorOf s)) s := by
  refine ⟨_, rfl, fun reply => ⟨_, rfl, fun herrno => if_neg herrno, fun hok htypes => ?_⟩⟩
  rw [hs, List.map_eq_nil_iff] at htypes
  rw [htypes]
  exact if_pos hok

theorem relays_returning {α : Type} {contents : α → List Stored} {s : Syscall} {locals : Locals}
    {value : Locals → α}
    (hvalue : ∀ stored, stored.map storedType = resultTypes s →
      contents (value (locals.store s.outs stored)) = stored) :
    Relays (returning contents (resultOf s locals value)) s := by
  refine ⟨_, rfl, fun reply => ?_⟩
  by_cases hok : reply.errno = 0
  · refine ⟨.ok (contents (value (locals.store s.outs reply.stored))), ?_,
      fun herrno => absurd hok herrno, fun _ htypes => ?_⟩
    · simp only [hok, ne_eq, not_true_eq_false, if_false]
      rfl
    · rw [hvalue _ htypes]
  · refine ⟨.error reply.errno, ?_, fun _ => rfl, fun h => absurd h hok⟩
    simp only [hok, ne_eq, not_false_eq_true, if_true]
    rfl

theorem eq_word {v : Stored} (hv : storedType v = .word) : ∃ n, v = .word n := by
  cases v with
  | word n => exact ⟨n, rfl⟩
  | _ => cases hv

theorem eq_filestat {v : Stored} (hv : storedType v = .filestat) : ∃ s, v = .filestat s := by
  cases v with
  | filestat s => exact ⟨s, rfl⟩
  | _ => cases hv

theorem eq_sockstat {v : Stored} (hv : storedType v = .sockstat) : ∃ s, v = .sockstat s := by
  cases v with
  | sockstat s => exact ⟨s, rfl⟩
  | _ => cases hv

theorem eq_singleton {stored : List Stored} {type : StoredType}
    (hstored : stored.map storedType = [type]) : ∃ v, stored = [v] ∧ storedType v = type := by
  obtain ⟨v, rest, rfl, hv, hrest⟩ := List.map_eq_cons_iff.mp hstored
  obtain rfl := List.map_eq_nil_iff.mp hrest
  exact ⟨v, rfl, hv⟩

theorem eq_pair {stored : List Stored} {type type' : StoredType}
    (hstored : stored.map storedType = [type, type']) :
    ∃ v v', stored = [v, v'] ∧ storedType v = type ∧ storedType v' = type' := by
  obtain ⟨v, rest, rfl, hv, hrest⟩ := List.map_eq_cons_iff.mp hstored
  obtain ⟨v', rfl, hv'⟩ := eq_singleton hrest
  exact ⟨v, v', rfl, hv, hv'⟩

theorem relays_word {α : Type} {contents : α → List Stored} {s : Syscall} {locals : Locals}
    {value : Locals → α} {x : Local} (houts : s.outs = [x]) (htypes : resultTypes s = [.word])
    (hvalue : ∀ locals, contents (value locals) = [.word (locals.word x)]) :
    Relays (returning contents (resultOf s locals value)) s := by
  apply relays_returning
  intro stored hstored
  rw [htypes] at hstored
  obtain ⟨v, rfl, hv⟩ := eq_singleton hstored
  obtain ⟨n, rfl⟩ := eq_word hv
  rw [hvalue, houts]
  simp [Locals.store, Locals.word]

theorem lookup_eq (types : TypesHeader) (fd : Fd) (followSymlinks : Bool) :
    request.lookup types fd followSymlinks = fd.lookup types followSymlinks := by
  cases followSymlinks <;> rfl

/-- What a wrapper does that is neither refused nor one of the two. -/
theorem program_relays (types : TypesHeader) {c : Call} (hc : ¬ Deviates c)
    (hmade : refused c = false) :
    ∃ x y unset, x ≠ y ∧ Relays (c.program types) (request types x y unset c) := by
  cases c
  case create2 | memMap => exact absurd trivial hc
  case poll input out =>
      have hroom : ¬ out.size < input.length := of_decide_eq_false hmade
      simp only [Call.program, FreeFunctions.poll, if_neg hroom]
      exact ⟨.nEvents, .a, 0, by decide, relays_word rfl rfl fun _ => rfl⟩
  case create1 => exact ⟨.result, .a, 0, by decide, relays_word rfl rfl fun _ => rfl⟩
  case dup => exact ⟨.dupFd, .a, 0, by decide, relays_word rfl rfl fun _ => rfl⟩
  case preadRange | readRange =>
      exact ⟨.nRead, .a, 0, by decide, relays_word rfl rfl fun _ => rfl⟩
  case pread | readList | read =>
      simp only [Call.program, Fd.pread, Fd.readList, Fd.read]
      exact ⟨.nRead, .a, 0, by decide, relays_word rfl rfl fun _ => rfl⟩
  case pwriteRange | writeRange =>
      exact ⟨.nWritten, .a, 0, by decide, relays_word rfl rfl fun _ => rfl⟩
  case pwrite | writeList | write =>
      simp only [Call.program, Fd.pwrite, Fd.writeList, Fd.write]
      exact ⟨.nWritten, .a, 0, by decide, relays_word rfl rfl fun _ => rfl⟩
  case seek => exact ⟨.newOffset, .a, 0, by decide, relays_word rfl rfl fun _ => rfl⟩
  case fdMemMap => exact ⟨.mem, .a, 0, by decide, relays_word rfl rfl fun _ => rfl⟩
  case fileReadlink => exact ⟨.bufused, .a, 0, by decide, relays_word rfl rfl fun _ => rfl⟩
  case fdPoll => exact ⟨.nEvents, .a, 0, by decide, relays_word rfl rfl fun _ => rfl⟩
  case clockResGet => exact ⟨.resolution, .a, 0, by decide, relays_word rfl rfl fun _ => rfl⟩
  case clockTimeGet => exact ⟨.time, .a, 0, by decide, relays_word rfl rfl fun _ => rfl⟩
  case fileOpen self path baseRights oflags fdflags inheritingRights followSymlinks =>
      simp only [Call.program, Fd.fileOpen, request, lookup_eq]
      exact ⟨.f, .a, (Locals.uninitialised.fdstat .stat).fs_filetype, by decide,
        relays_word rfl rfl fun _ => rfl⟩
  case statGet self =>
      refine ⟨.stat, .a, 0, by decide, relays_returning ?_⟩
      intro stored hstored
      obtain ⟨v, rfl, hv⟩ := eq_singleton hstored
      cases v with
      | fdstat stat => rfl
      | _ => cases hv
  case fileStatFget self =>
      refine ⟨.stat, .a, 0, by decide, relays_returning ?_⟩
      intro stored hstored
      obtain ⟨v, rfl, hv⟩ := eq_singleton hstored
      obtain ⟨stat, rfl⟩ := eq_filestat hv
      rfl
  case fileStatGet self path followSymlinks =>
      simp only [request, lookup_eq]
      refine ⟨.stat, .a, 0, by decide, relays_returning ?_⟩
      intro stored hstored
      obtain ⟨v, rfl, hv⟩ := eq_singleton hstored
      obtain ⟨stat, rfl⟩ := eq_filestat hv
      rfl
  case sockStatGet self flags =>
      refine ⟨.stat, .a, 0, by decide, relays_returning ?_⟩
      intro stored hstored
      obtain ⟨v, rfl, hv⟩ := eq_singleton hstored
      obtain ⟨stat, rfl⟩ := eq_sockstat hv
      rfl
  case sockAccept self =>
      refine ⟨.stat, .fd, 0, by decide, relays_returning ?_⟩
      intro stored hstored
      obtain ⟨v, v', rfl, hv, hv'⟩ := eq_pair hstored
      obtain ⟨stat, rfl⟩ := eq_sockstat hv
      obtain ⟨n, rfl⟩ := eq_word hv'
      rfl
  case procFork =>
      refine ⟨.f, .t, 0, by decide, relays_returning ?_⟩
      intro stored hstored
      obtain ⟨v, v', rfl, hv, hv'⟩ := eq_pair hstored
      obtain ⟨n, rfl⟩ := eq_word hv
      obtain ⟨m, rfl⟩ := eq_word hv'
      rfl
  case fileStatPut self path stat flags followSymlinks =>
      simp only [request, lookup_eq]
      exact ⟨.a, .b, 0, by decide, relays_codeOnly rfl⟩
  case fileLink fd1 path1 fd2 path2 followSymlinks =>
      simp only [request, lookup_eq]
      exact ⟨.a, .b, 0, by decide, relays_codeOnly rfl⟩
  all_goals exact ⟨.a, .b, 0, by decide, relays_codeOnly rfl⟩

theorem program_refused (types : TypesHeader) {c : Call} (hc : refused c = true) :
    c.program types = .done (.error types.inval) := by
  cases c
  case poll input out =>
      have hroom : out.size < input.length := of_decide_eq_true hc
      simp only [Call.program, FreeFunctions.poll, if_pos hroom]
      rfl
  all_goals exact absurd hc Bool.false_ne_true

variable {σ : Type}

theorem faithful_entry (types : TypesHeader) (handle : σ → Syscall → Reply × σ) (k : σ)
    {c : Call} (hc : ¬ Deviates c) : Faithful types (c.entry types handle k) := by
  cases hmade : refused c with
  | true =>
      simp only [Faithful, Call.entry, hmade, program_refused types hmade]
      exact ⟨rfl, rfl⟩
  | false =>
      obtain ⟨x, y, unset, hxy, next, hprogram, hnext⟩ := program_relays types hc hmade
      let s := request types x y unset c
      obtain ⟨result, hdone, hrelayed⟩ := hnext (handle k s).1
      simp only [Faithful, Call.entry, hmade]
      refine ⟨x, y, unset, (handle k s).1, hxy, ?_, ?_⟩
      · simp only [hprogram, Program.dialogue, s, hdone]
      · simp only [hprogram, Program.exec_ask, hdone, Program.exec_done, s]
        exact hrelayed

/-- The two wrappers make another system call, whatever the kernel replies. -/
theorem not_faithful_entry (types : TypesHeader) (handle : σ → Syscall → Reply × σ) (k : σ)
    {c : Call} (hc : Deviates c) : ¬ Faithful types (c.entry types handle k) := by
  cases c
  case create2 ft =>
      rintro ⟨x, y, unset, reply, hxy, hmade, -⟩
      obtain ⟨-, rfl, rfl⟩ := Syscall.fdCreate2.inj (Prod.mk.inj (List.cons.inj hmade).1).1
      exact hxy rfl
  case memMap len prot flags addr =>
      rintro ⟨x, y, unset, reply, -, hmade, -⟩
      obtain ⟨-, -, -, -, hfd, -, -⟩ :=
        Syscall.memMap.inj (Prod.mk.inj (List.cons.inj hmade).1).1
      exact Nat.ne_of_lt types.mapAnon_lt hfd
  all_goals exact hc.elim

/-- A session that has made the calls: what the kernel was asked, in order, is what the
calls made, and a call is faithful exactly if it is none of the two. -/
structure SessionAfter (types : TypesHeader) (handle : σ → Syscall → Reply × σ) (k : σ)
    (calls : List Call) (t : Session σ) : Prop where
  calls : t.log.map Entry.call = calls
  transcript : Transcript handle k (t.log.flatMap Entry.made) t.kernel
  faithful : ∀ e ∈ t.log, Faithful types e ↔ ¬ Deviates e.call

theorem SessionAfter.exec {types : TypesHeader} {handle : σ → Syscall → Reply × σ} {k : σ}
    {past : List Call} {t : Session σ} (h : SessionAfter types handle k past t) (c : Call) :
    SessionAfter types handle k (past ++ [c]) (t.exec types handle c) where
  calls := by simp [Session.exec, Call.entry, h.calls]
  transcript := by
    simp only [Session.exec, List.flatMap_append, List.flatMap_singleton]
    exact h.transcript.append (transcript_dialogue handle t.kernel _)
  faithful := by
    intro e he
    rcases List.mem_append.mp he with hearlier | hlast
    · exact h.faithful e hearlier
    · rw [List.mem_singleton.mp hlast]
      constructor
      · exact fun hfaithful hc => not_faithful_entry types handle t.kernel hc hfaithful
      · exact faithful_entry types handle t.kernel

theorem sessionAfter_run (types : TypesHeader) (handle : σ → Syscall → Reply × σ) (k : σ)
    (calls : List Call) :
    SessionAfter types handle k calls
      (run (Session.exec types handle) (Session.start k) calls) := by
  have hinit : SessionAfter types handle k [] (Session.start k) :=
    ⟨rfl, rfl, by simp [Session.start]⟩
  have hany : Along (Session.exec types handle) (fun _ _ => True) (Session.start k) calls :=
    Along.of_mem (fun _ _ _ => trivial) _
  exact run_history (fun _ _ c h _ => h.exec c) hinit hany

/-- In every session with any kernel, the system calls are those of the calls made, in
order. All calls are faithful exactly if none is a `create2` or a `mem_map`. -/
theorem calls_are_faithful_iff (types : TypesHeader) (handle : σ → Syscall → Reply × σ) (k : σ)
    (calls : List Call) :
    let t := run (Session.exec types handle) (Session.start k) calls
    t.log.map Entry.call = calls ∧ Transcript handle k (t.log.flatMap Entry.made) t.kernel ∧
      ((∀ e ∈ t.log, Faithful types e) ↔ ∀ c ∈ calls, ¬ Deviates c) := by
  intro t
  obtain ⟨hcalls, htranscript, hfaithful⟩ := sessionAfter_run types handle k calls
  refine ⟨hcalls, htranscript, ?_⟩
  rw [← hcalls, List.forall_mem_map]
  constructor
  · exact fun hall e he => (hfaithful e he).mp (hall e he)
  · exact fun hnone e he => (hfaithful e he).mpr (hnone e he)

end CloudabiCpp.Wrappers.Requests

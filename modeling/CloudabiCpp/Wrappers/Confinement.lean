import CloudabiCpp.Wrappers.Calls

/-!
Which descriptors the wrappers name in their system calls: a case analysis over
all of them.
-/

namespace CloudabiCpp.Wrappers.Confinement

open CloudabiCpp.Wrappers.Syscalls
open CloudabiCpp.Wrappers.FdImpl
open CloudabiCpp.Wrappers.Calls

/-- Whatever the kernel replies, the system calls of `c` name no other descriptor
than those given, or none. -/
def Confined (types : TypesHeader) (c : Call) : Prop :=
  ∀ s, c.Issues types s → ∀ n ∈ s.descriptors, n ∈ c.fds ∨ n = noFd

/-- Every wrapper but `mem_map` passes on descriptors it was given. -/
theorem descriptors_subset_fds (types : TypesHeader) (c : Call) (s : Syscall)
    (hissued : c.Issues types s) (hc : ¬ c.IsMemMap) : s.descriptors ⊆ c.fds := by
  cases c
  case memMap => exact absurd trivial hc
  case poll input out =>
      simp only [Call.Issues, Call.program, issues_returning, FreeFunctions.poll] at hissued
      split at hissued
      · exact hissued.elim
      · rw [issues_resultOf] at hissued
        subst hissued
        exact List.Subset.refl _
  all_goals
      simp only [Call.Issues, Call.program, issues_codeOnly, issues_returning, Fd.close,
        Fd.create1, Fd.create2, Fd.datasync, Fd.dup, Fd.pread,
        Fd.preadRange, Fd.pwrite, Fd.pwriteRange, Fd.read, Fd.readList, Fd.readRange, Fd.write,
        Fd.writeList, Fd.writeRange, Fd.replace, Fd.seek, Fd.statGet, Fd.statPut, Fd.sync,
        Fd.memMap, Fd.fileAdvise, Fd.fileAllocate, Fd.fileCreate, Fd.fileOpen,
        Fd.fileReadlink, Fd.fileStatFget, Fd.fileStatGet, Fd.fileStatFput, Fd.fileStatPut,
        Fd.fileSymlink, Fd.fileUnlink, Fd.poll, Fd.procExec, Fd.sockAccept, Fd.sockBind,
        Fd.sockConnect, Fd.sockListen, Fd.sockShutdown, Fd.sockStatGet, FdImpl.fileLink,
        FdImpl.fileRename, FreeFunctions.memAdvise, FreeFunctions.memProtect,
        FreeFunctions.memSync, FreeFunctions.memUnmap, FreeFunctions.randomGet,
        FreeFunctions.clockResGet, FreeFunctions.clockTimeGet, FreeFunctions.procFork,
        FreeFunctions.procRaise, issues_errorOf, issues_resultOf] at hissued
      subst hissued
      simp [Syscall.descriptors, Call.fds, Fd.lookup]

theorem memMap_issues (types : TypesHeader) (len : Nat) (prot : EnumClass .mprot)
    (flags : EnumClass .mflags) (addr : Nat) :
    (Call.memMap len prot flags addr).Issues types
      (.memMap addr len prot.repr flags.repr types.mapAnon 0 .mem) := by
  simp only [Call.Issues, Call.program, issues_returning, FreeFunctions.memMap, Fd.memMap,
    issues_resultOf]

theorem confined_iff (types : TypesHeader) (c : Call) :
    Confined types c ↔ ¬ c.IsMemMap := by
  constructor
  · rintro hconfined hc
    cases c
    case memMap len prot flags addr =>
        have hanon := hconfined _ (memMap_issues types len prot flags addr) types.mapAnon
          (List.mem_singleton_self _)
        rcases hanon with hgiven | hnone
        · exact List.not_mem_nil hgiven
        · exact absurd hnone (Nat.ne_of_lt types.mapAnon_lt)
    all_goals exact hc
  · intro hc s hissued n hn
    exact Or.inl (descriptors_subset_fds types c s hissued hc hn)

/-- With `CLOUDABI_MAP_ANON = 1`, `mem_map` acts on descriptor `1`. -/
theorem memMap_not_confined :
    let types : TypesHeader := ⟨1, 1, 28, by decide, by decide⟩
    ¬ Confined types (.memMap 4096 ⟨6⟩ ⟨4⟩ 0) := by
  intro types hconfined
  have hanon := hconfined (.memMap 0 4096 6 4 1 0 .mem) (memMap_issues types 4096 ⟨6⟩ ⟨4⟩ 0) 1
    (by decide)
  revert hanon
  decide

end CloudabiCpp.Wrappers.Confinement

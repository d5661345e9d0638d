import CloudabiCpp.Wrappers.FreeFunctions

/-!
All the wrappers in one table, and programs that call them one after the other.
-/

namespace CloudabiCpp.Wrappers.Calls

open CloudabiCpp.Lib.Interaction
open CloudabiCpp.Wrappers.Syscalls
open CloudabiCpp.Wrappers.FdImpl

inductive Call where
  | close (self : Fd)
  | create1 (ft : EnumClass .filetype)
  | create2 (ft : EnumClass .filetype)
  | datasync (self : Fd)
  | dup (self : Fd)
  | preadRange (self : Fd) (iov : List Iovec) (offset : Nat)
  | pread (self : Fd) (iov : Iovec) (offset : Nat)
  | pwriteRange (self : Fd) (iov : List Iovec) (offset : Nat)
  | pwrite (self : Fd) (iov : Iovec) (offset : Nat)
  | readRange (self : Fd) (iov : List Iovec)
  | readList (self : Fd) (iov : List Iovec)
  | read (self : Fd) (iov : Iovec)
  | writeRange (self : Fd) (iov : List Iovec)
  | writeList (self : Fd) (iov : List Iovec)
  | write (self : Fd) (iov : Iovec)
  | replace (self source : Fd)
  | seek (self : Fd) (offset : Nat) (wh : EnumClass .whence)
  | statGet (self : Fd)
  | statPut (self : Fd) (stat : Fdstat) (flags : EnumClass .fdsflags)
  | sync (self : Fd)
  | fdMemMap (self : Fd) (len off : Nat) (prot : EnumClass .mprot) (flags : EnumClass .mflags)
      (addr : Nat)
  | fileAdvise (self : Fd) (offset len : Nat) (a : EnumClass .advice)
  | fileAllocate (self : Fd) (offset len : Nat)
  | fileCreate (self : Fd) (path : Buffer) (type : EnumClass .filetype)
  | fileOpen (self : Fd) (path : Buffer) (baseRights : EnumClass .rights)
      (oflags : EnumClass .oflags) (fdflags : EnumClass .fdflags)
      (inheritingRights : EnumClass .rights) (followSymlinks : Bool)
  | fileReadlink (self : Fd) (path buf : Buffer)
  | fileStatFget (self : Fd)
  | fileStatGet (self : Fd) (path : Buffer) (followSymlinks : Bool)
  | fileStatFput (self : Fd) (stat : Filestat) (flags : EnumClass .fsflags)
  | fileStatPut (self : Fd) (path : Buffer) (stat : Filestat) (flags : EnumClass .fsflags)
      (followSymlinks : Bool)
  | fileSymlink (self : Fd) (path contents : Buffer)
  | fileUnlink (self : Fd) (path : Buffer) (flags : EnumClass .ulflags)
  | fdPoll (self : Fd) (input : List Subscription) (out : Buffer) (timeout : Subscription)
  | procExec (self : Fd) (data : Buffer) (fds : List Fd)
  | sockAccept (self : Fd)
  | sockBind (self dir : Fd) (path : Buffer)
  | sockConnect (self dir : Fd) (path : Buffer)
  | sockListen (self : Fd) (bl : Nat)
  | sockShutdown (self : Fd) (how : EnumClass .sdflags)
  | sockStatGet (self : Fd) (flags : EnumClass .ssflags)
  | fileLink (fd1 : Fd) (path1 : Buffer) (fd2 : Fd) (path2 : Buffer) (followSymlinks : Bool)
  | fileRename (fd1 : Fd) (path1 : Buffer) (fd2 : Fd) (path2 : Buffer)
  | memAdvise (mem : Buffer) (a : EnumClass .advice)
  | memMap (len : Nat) (prot : EnumClass .mprot) (flags : EnumClass .mflags) (addr : Nat)
  | memProtect (mem : Buffer) (prot : EnumClass .mprot)
  | memSync (mem : Buffer) (flags : EnumClass .msflags)
  | memUnmap (mem : Buffer)
  | poll (input : List Subscription) (out : Buffer)
  | randomGet (buf : Buffer)
  | clockResGet (clockId : EnumClass .clockid)
  | clockTimeGet (clockId : EnumClass .clockid) (precision : Nat)
  | procFork
  | procRaise (sig : EnumClass .signal)

/-- An `error_or<void>` or an `error`: the code `0` is success. -/
def codeOnly (p : Wrapper Nat) : Wrapper (ErrorOr (List Stored)) :=
  p.map fun errno => if errno = 0 then .ok [] else .error errno

/-- A value that is returned, given by what the kernel can have stored in it. -/
def returning {α : Type} (contents : α → List Stored) (p : Wrapper (ErrorOr α)) :
    Wrapper (ErrorOr (List Stored)) :=
  p.map (Except.map contents)

def word (n : Nat) : List Stored := [.word n]

def descriptor (u : UniqueFd) : List Stored := [.word u.held.fd_]

@[simp] theorem issues_codeOnly (s : Syscall) (p : Wrapper Nat) :
    (codeOnly p).Issues s ↔ p.Issues s :=
  Program.issues_map s _ p

@[simp] theorem issues_returning {α : Type} (s : Syscall) (contents : α → List Stored)
    (p : Wrapper (ErrorOr α)) : (returning contents p).Issues s ↔ p.Issues s :=
  Program.issues_map s _ p

namespace Call

/-- The wrapper that is called. -/
def program (types : TypesHeader) : Call → Wrapper (ErrorOr (List Stored))
  | .close self => codeOnly self.close
  | .create1 ft => returning descriptor (Fd.create1 ft)
  | .create2 ft => returning (fun r => [.word r.1.held.fd_, .word r.2.held.fd_]) (Fd.create2 ft)
  | .datasync self => codeOnly self.datasync
  | .dup self => returning descriptor self.dup
  | .preadRange self iov offset => returning word (self.preadRange iov offset)
  | .pread self iov offset => returning word (self.pread iov offset)
  | .pwriteRange self iov offset => returning word (self.pwriteRange iov offset)
  | .pwrite self iov offset => returning word (self.pwrite iov offset)
  | .readRange self iov => returning word (self.readRange iov)
  | .readList self iov => returning word (self.readList iov)
  | .read self iov => returning word (self.read iov)
  | .writeRange self iov => returning word (self.writeRange iov)
  | .writeList self iov => returning word (self.writeList iov)
  | .write self iov => returning word (self.write iov)
  | .replace self source => codeOnly (self.replace source)
  | .seek self offset wh => returning word (self.seek offset wh)
  | .statGet self => returning (fun stat => [.fdstat stat]) self.statGet
  | .statPut self stat flags => codeOnly (self.statPut stat flags)
  | .sync self => codeOnly self.sync
  | .fdMemMap self len off prot flags addr => returning word (self.memMap len off prot flags addr)
  | .fileAdvise self offset len a => codeOnly (self.fileAdvise offset len a)
  | .fileAllocate self offset len => codeOnly (self.fileAllocate offset len)
  | .fileCreate self path type => codeOnly (self.fileCreate path type)
  | .fileOpen self path baseRights oflags fdflags inheritingRights followSymlinks =>
      returning descriptor
        (self.fileOpen types path baseRights oflags fdflags inheritingRights followSymlinks)
  | .fileReadlink self path buf => returning word (self.fileReadlink path buf)
  | .fileStatFget self => returning (fun stat => [.filestat stat]) self.fileStatFget
  | .fileStatGet self path followSymlinks =>
      returning (fun stat => [.filestat stat]) (self.fileStatGet types path followSymlinks)
  | .fileStatFput self stat flags => codeOnly (self.fileStatFput stat flags)
  | .fileStatPut self path stat flags followSymlinks =>
      codeOnly (self.fileStatPut types path stat flags followSymlinks)
  | .fileSymlink self path contents => codeOnly (self.fileSymlink path contents)
  | .fileUnlink self path flags => codeOnly (self.fileUnlink path flags)
  | .fdPoll self input out timeout => returning word (self.poll input out timeout)
  | .procExec self data fds => codeOnly (self.procExec data fds)
  | .sockAccept self =>
      returning (fun r => [.sockstat r.sockstat, .word r.fd.held.fd_]) self.sockAccept
  | .sockBind self dir path => codeOnly (self.sockBind dir path)
  | .sockConnect self dir path => codeOnly (self.sockConnect dir path)
  | .sockListen self bl => codeOnly (self.sockListen bl)
  | .sockShutdown self how => codeOnly (self.sockShutdown how)
  | .sockStatGet self flags => returning (fun stat => [.sockstat stat]) (self.sockStatGet flags)
  | .fileLink fd1 path1 fd2 path2 followSymlinks =>
      codeOnly (FdImpl.fileLink types fd1 path1 fd2 path2 followSymlinks)
  | .fileRename fd1 path1 fd2 path2 => codeOnly (FdImpl.fileRename fd1 path1 fd2 path2)
  | .memAdvise mem a => codeOnly (FreeFunctions.memAdvise mem a)
  | .memMap len prot flags addr => returning word (FreeFunctions.memMap types len prot flags addr)
  | .memProtect mem prot => codeOnly (FreeFunctions.memProtect mem prot)
  | .memSync mem flags => codeOnly (FreeFunctions.memSync mem flags)
  | .memUnmap mem => codeOnly (FreeFunctions.memUnmap mem)
  | .poll input out => returning word (FreeFunctions.poll types input out)
  | .randomGet buf => codeOnly (FreeFunctions.randomGet buf)
  | .clockResGet clockId => returning word (FreeFunctions.clockResGet clockId)
  | .clockTimeGet clockId precision => returning word (FreeFunctions.clockTimeGet clockId precision)
  | .procFork => returning (fun r => [.word r.fd.held.fd_, .word r.tid]) FreeFunctions.procFork
  | .procRaise sig => codeOnly (FreeFunctions.procRaise sig)

def Issues (types : TypesHeader) (s : Syscall) (c : Call) : Prop :=
  (c.program types).Issues s

/-- The descriptors given to a call: the receiver and the arguments of type `fd`,
those in lists and inside subscriptions included. -/
def fds : Call → List Nat
  | .close self | .datasync self | .dup self | .preadRange self _ _ | .pread self _ _
  | .pwriteRange self _ _ | .pwrite self _ _ | .readRange self _ | .readList self _
  | .read self _ | .writeRange self _ | .writeList self _ | .write self _
  | .seek self _ _ | .statGet self | .statPut self _ _ | .sync self
  | .fdMemMap self _ _ _ _ _ | .fileAdvise self _ _ _ | .fileAllocate self _ _
  | .fileCreate self _ _ | .fileOpen self _ _ _ _ _ _ | .fileReadlink self _ _
  | .fileStatFget self | .fileStatGet self _ _ | .fileStatFput self _ _
  | .fileStatPut self _ _ _ _ | .fileSymlink self _ _ | .fileUnlink self _ _
  | .sockAccept self | .sockListen self _ | .sockShutdown self _ | .sockStatGet self _ =>
      [self.fd_]
  | .replace self source => [self.fd_, source.fd_]
  | .fdPoll self input _ timeout =>
      self.fd_ :: (input.flatMap Subscription.fds ++ timeout.fds)
  | .procExec self _ fds => self.fd_ :: fds.map Fd.fd_
  | .sockBind self dir _ | .sockConnect self dir _ => [self.fd_, dir.fd_]
  | .fileLink fd1 _ fd2 _ _ | .fileRename fd1 _ fd2 _ => [fd1.fd_, fd2.fd_]
  | .poll input _ => input.flatMap Subscription.fds
  | .create1 _ | .create2 _ | .memAdvise _ _ | .memMap _ _ _ _ | .memProtect _ _
  | .memSync _ _ | .memUnmap _ | .randomGet _ | .clockResGet _ | .clockTimeGet _ _
  | .procFork | .procRaise _ => []

def IsMemMap : Call → Prop
  | .memMap _ _ _ _ => True
  | _ => False

end Call

/-- What came of a call: the system calls that it made, with the replies, and what
it returned. -/
structure Entry where
  call : Call
  made : List (Syscall × Reply)
  result : ErrorOr (List Stored)

structure Session (σ : Type) where
  kernel : σ
  log : List Entry

section Sessions

variable {σ : Type} (types : TypesHeader) (handle : σ → Syscall → Reply × σ)

def Call.entry (k : σ) (c : Call) : Entry where
  call := c
  made := (c.program types).dialogue handle k
  result := ((c.program types).exec handle k).1

def Session.start (k : σ) : Session σ := ⟨k, []⟩

def Session.exec (t : Session σ) (c : Call) : Session σ where
  kernel := ((c.program types).exec handle t.kernel).2
  log := t.log ++ [c.entry types handle t.kernel]

end Sessions

end CloudabiCpp.Wrappers.Calls

import CloudabiCpp.Wrappers.Syscalls

/-!
The class `fd` and the wrappers of `fd_impl.hpp`. A `range<T>` of elements that
the kernel reads is the list of these elements.
-/

namespace CloudabiCpp.Wrappers.FdImpl

open CloudabiCpp.Wrappers.Syscalls

/-- The constants of `cloudabi_types.h` that the wrappers use: `CLOUDABI_MAP_ANON`,
`CLOUDABI_LOOKUP_SYMLINK_FOLLOW`, `CLOUDABI_EINVAL`. The first is a mapping flag
small enough to be a descriptor. -/
structure TypesHeader where
  mapAnon : Nat
  lookupSymlinkFollow : Nat
  inval : Nat
  mapAnon_pos : 0 < mapAnon
  mapAnon_lt : mapAnon < noFd

structure Fd where
  fd_ : Nat := noFd
  deriving DecidableEq

/-- `mstd::unique<fd, fd_closer>`. -/
structure UniqueFd where
  held : Fd
  deriving DecidableEq

structure SockAcceptResult where
  fd : UniqueFd
  sockstat : Sockstat

namespace Locals

/-- A local variable of type `fd`, after the kernel's store through its `fd_`. -/
def uniqueFd (locals : Locals) (x : Local) : UniqueFd := ⟨⟨locals.word x⟩⟩

end Locals

open Locals

namespace Fd

variable (types : TypesHeader) (self : Fd)

/-- `explicit operator bool`. -/
def toBool : Bool := self.fd_ != noFd

def number : Nat := self.fd_

/-- `cloudabi_lookup_t lookup = {fd_, follow_symlinks ? ... : 0u};` -/
def lookup (followSymlinks : Bool) : Lookup :=
  ⟨self.fd_, if followSymlinks then types.lookupSymlinkFollow else 0⟩

def close : Wrapper Nat :=
  errorOf (.fdClose self.fd_)

def create1 (ft : EnumClass .filetype) : Wrapper (ErrorOr UniqueFd) :=
  resultOf (.fdCreate1 ft.repr .result) (uninitialised.declareFd .result)
    fun locals => uniqueFd locals .result

/-- Both output pointers are `&b.fd_`. -/
def create2 (ft : EnumClass .filetype) : Wrapper (ErrorOr (UniqueFd × UniqueFd)) :=
  resultOf (.fdCreate2 ft.repr .b .b) ((uninitialised.declareFd .a).declareFd .b)
    fun locals => (uniqueFd locals .a, uniqueFd locals .b)

def datasync : Wrapper Nat :=
  errorOf (.fdDatasync self.fd_)

def dup : Wrapper (ErrorOr UniqueFd) :=
  resultOf (.fdDup self.fd_ .dupFd) (uninitialised.declareFd .dupFd)
    fun locals => uniqueFd locals .dupFd

def preadRange (iov : List Iovec) (offset : Nat) : Wrapper (ErrorOr Nat) :=
  resultOf (.fdPread self.fd_ iov iov.length offset .nRead) uninitialised
    fun locals => locals.word .nRead

def pread (iov : Iovec) (offset : Nat) : Wrapper (ErrorOr Nat) :=
  self.preadRange [iov] offset

def pwriteRange (iov : List Iovec) (offset : Nat) : Wrapper (ErrorOr Nat) :=
  resultOf (.fdPwrite self.fd_ iov iov.length offset .nWritten) uninitialised
    fun locals => locals.word .nWritten

def pwrite (iov : Iovec) (offset : Nat) : Wrapper (ErrorOr Nat) :=
  self.pwriteRange [iov] offset

def readRange (iov : List Iovec) : Wrapper (ErrorOr Nat) :=
  resultOf (.fdRead self.fd_ iov iov.length .nRead) uninitialised
    fun locals => locals.word .nRead

/-- The overload for `std::initializer_list<iovec>`. -/
def readList (iov : List Iovec) : Wrapper (ErrorOr Nat) :=
  self.readRange iov

def read (iov : Iovec) : Wrapper (ErrorOr Nat) :=
  self.readRange [iov]

def writeRange (iov : List Iovec) : Wrapper (ErrorOr Nat) :=
  resultOf (.fdWrite self.fd_ iov iov.length .nWritten) uninitialised
    fun locals => locals.word .nWritten

/-- The overload for `std::initializer_list<ciovec>`. -/
def writeList (iov : List Iovec) : Wrapper (ErrorOr Nat) :=
  self.writeRange iov

def write (iov : Iovec) : Wrapper (ErrorOr Nat) :=
  self.writeRange [iov]

def replace (source : Fd) : Wrapper Nat :=
  errorOf (.fdReplace source.fd_ self.fd_)

def seek (offset : Nat) (wh : EnumClass .whence) : Wrapper (ErrorOr Nat) :=
  resultOf (.fdSeek self.fd_ offset wh.repr .newOffset) uninitialised
    fun locals => locals.word .newOffset

def statGet : Wrapper (ErrorOr Fdstat) :=
  resultOf (.fdStatGet self.fd_ .stat) uninitialised fun locals => locals.fdstat .stat

def statPut (stat : Fdstat) (flags : EnumClass .fdsflags) : Wrapper Nat :=
  errorOf (.fdStatPut self.fd_ stat flags.repr)

def sync : Wrapper Nat :=
  errorOf (.fdSync self.fd_)

def memMap (len off : Nat) (prot : EnumClass .mprot) (flags : EnumClass .mflags)
    (addr : Nat) : Wrapper (ErrorOr Nat) :=
  resultOf (.memMap addr len prot.repr flags.repr self.fd_ off .mem) uninitialised
    fun locals => locals.word .mem

def fileAdvise (offset len : Nat) (a : EnumClass .advice) : Wrapper Nat :=
  errorOf (.fileAdvise self.fd_ offset len a.repr)

def fileAllocate (offset len : Nat) : Wrapper Nat :=
  errorOf (.fileAllocate self.fd_ offset len)

def fileCreate (path : Buffer) (type : EnumClass .filetype) : Wrapper Nat :=
  errorOf (.fileCreate self.fd_ path.data path.size type.repr)

/-- `stat.fs_filetype` is left as it is declared. -/
def fileOpen (path : Buffer) (baseRights : EnumClass .rights) (oflags : EnumClass .oflags)
    (fdflags : EnumClass .fdflags) (inheritingRights : EnumClass .rights)
    (followSymlinks : Bool) : Wrapper (ErrorOr UniqueFd) :=
  let stat := { uninitialised.fdstat .stat with
    fs_rights_base := baseRights.repr
    fs_rights_inheriting := inheritingRights.repr
    fs_flags := fdflags.repr }
  resultOf (.fileOpen (self.lookup types followSymlinks) path.data path.size oflags.repr stat .f)
    (uninitialised.declareFd .f) fun locals => uniqueFd locals .f

def fileReadlink (path buf : Buffer) : Wrapper (ErrorOr Nat) :=
  resultOf (.fileReadlink self.fd_ path.data path.size buf.data buf.size .bufused) uninitialised
    fun locals => locals.word .bufused

def fileStatFget : Wrapper (ErrorOr Filestat) :=
  resultOf (.fileStatFget self.fd_ .stat) uninitialised fun locals => locals.filestat .stat

def fileStatGet (path : Buffer) (followSymlinks : Bool) : Wrapper (ErrorOr Filestat) :=
  resultOf (.fileStatGet (self.lookup types followSymlinks) path.data path.size .stat)
    uninitialised fun locals => locals.filestat .stat

def fileStatFput (stat : Filestat) (flags : EnumClass .fsflags) : Wrapper Nat :=
  errorOf (.fileStatFput self.fd_ stat flags.repr)

def fileStatPut (path : Buffer) (stat : Filestat) (flags : EnumClass .fsflags)
    (followSymlinks : Bool) : Wrapper Nat :=
  errorOf (.fileStatPut (self.lookup types followSymlinks) path.data path.size stat flags.repr)

def fileSymlink (path contents : Buffer) : Wrapper Nat :=
  errorOf (.fileSymlink contents.data contents.size self.fd_ path.data path.size)

def fileUnlink (path : Buffer) (flags : EnumClass .ulflags) : Wrapper Nat :=
  errorOf (.fileUnlink self.fd_ path.data path.size flags.repr)

def poll (input : List Subscription) (out : Buffer) (timeout : Subscription) :
    Wrapper (ErrorOr Nat) :=
  resultOf (.pollFd self.fd_ input input.length out.data out.size timeout .nEvents)
    uninitialised fun locals => locals.word .nEvents

def procExec (data : Buffer) (fds : List Fd) : Wrapper Nat :=
  errorOf (.procExec self.fd_ data.data data.size (fds.map Fd.fd_) fds.length)

def sockAccept : Wrapper (ErrorOr SockAcceptResult) :=
  resultOf (.sockAccept self.fd_ .stat .fd) (uninitialised.declareFd .fd)
    fun locals => ⟨uniqueFd locals .fd, locals.sockstat .stat⟩

def sockBind (dir : Fd) (path : Buffer) : Wrapper Nat :=
  errorOf (.sockBind self.fd_ dir.fd_ path.data path.size)

def sockConnect (dir : Fd) (path : Buffer) : Wrapper Nat :=
  errorOf (.sockConnect self.fd_ dir.fd_ path.data path.size)

def sockListen (bl : Nat) : Wrapper Nat :=
  errorOf (.sockListen self.fd_ bl)

def sockShutdown (how : EnumClass .sdflags) : Wrapper Nat :=
  errorOf (.sockShutdown self.fd_ how.repr)

def sockStatGet (flags : EnumClass .ssflags) : Wrapper (ErrorOr Sockstat) :=
  resultOf (.sockStatGet self.fd_ .stat flags.repr) uninitialised
    fun locals => locals.sockstat .stat

end Fd

namespace UniqueFd

def empty : UniqueFd := ⟨{}⟩

def owned (u : UniqueFd) : Option Nat :=
  if u.held.toBool then some u.held.fd_ else none

/-- The destructor calls `fd_closer` if the held `fd` is truthy. -/
def destroy (u : UniqueFd) : Wrapper Unit :=
  if u.held.toBool then u.held.close.map fun _ => () else .done ()

end UniqueFd

def fileLink (types : TypesHeader) (fd1 : Fd) (path1 : Buffer) (fd2 : Fd) (path2 : Buffer)
    (followSymlinks : Bool) : Wrapper Nat :=
  errorOf (.fileLink (fd1.lookup types followSymlinks) path1.data path1.size
    fd2.fd_ path2.data path2.size)

def fileRename (fd1 : Fd) (path1 : Buffer) (fd2 : Fd) (path2 : Buffer) : Wrapper Nat :=
  errorOf (.fileRename fd1.fd_ path1.data path1.size fd2.fd_ path2.data path2.size)

end CloudabiCpp.Wrappers.FdImpl

import Mathlib.Algebra.Group.Nat.Defs
import Mathlib.Logic.Function.Basic
import CloudabiCpp.Lib.Interaction

/-!
The kernel interface as the wrappers use it. Numbers that cross it are natural
numbers; descriptors are values of `cloudabi_fd_t`, whose all-ones value
(`cloudabi_fd_t(-1)`, `CLOUDABI_MAP_ANON_FD`) is no descriptor. An output pointer
is the name of the local variable it points to, so that it is visible where a
wrapper lets the kernel store each result.
-/

namespace CloudabiCpp.Wrappers.Syscalls

open CloudabiCpp.Lib.Interaction

def noFd : Nat := 2 ^ 32 - 1

/-- The scoped enumerations of `types.hpp` that the wrappers convert. -/
inductive AbiEnum where
  | advice | clockid | fdflags | fdsflags | filetype | fsflags | mflags | mprot
  | msflags | oflags | rights | sdflags | signal | ssflags | ulflags | whence

/-- A value of such an enumeration; `repr` is the conversion to the C type. -/
structure EnumClass (name : AbiEnum) where
  repr : Nat

/-- A pointer and a size: byte ranges and `string_view`. -/
structure Buffer where
  data : Nat
  size : Nat

/-- `iovec` and `ciovec` are byte ranges. -/
abbrev Iovec := Buffer

structure Fdstat where
  fs_filetype : Nat
  fs_flags : Nat
  fs_rights_base : Nat
  fs_rights_inheriting : Nat
  deriving Inhabited

structure Filestat where
  st_dev : Nat
  st_ino : Nat
  st_filetype : Nat
  st_nlink : Nat
  st_size : Nat
  st_atim : Nat
  st_mtim : Nat
  st_ctim : Nat
  deriving Inhabited

structure Sockaddr where
  sa_family : Nat
  addr : List Nat
  port : Nat
  deriving Inhabited

structure Sockstat where
  ss_sockname : Sockaddr
  ss_peername : Sockaddr
  ss_error : Nat
  ss_state : Nat
  deriving Inhabited

/-- The anonymous union of `subscription`. -/
inductive SubscriptionUnion where
  | clock (identifier clock_id timeout precision flags : Nat)
  | condvar (condvar lock condvar_scope lock_scope : Nat)
  | fdReadwrite (fd flags : Nat)
  | lock (lock lock_scope : Nat)
  | procTerminate (fd : Nat)

structure Subscription where
  userdata : Nat
  flags : Nat
  type : Nat
  payload : SubscriptionUnion

def Subscription.fds (s : Subscription) : List Nat :=
  match s.payload with
  | .fdReadwrite fd _ => [fd]
  | .procTerminate fd => [fd]
  | _ => []

structure Lookup where
  fd : Nat
  flags : Nat

inductive Local where
  | a | b | result | dupFd | f | fd | t | nRead | nWritten | newOffset | stat | mem
  | bufused | nEvents | resolution | time
  deriving DecidableEq

inductive Stored where
  | word (n : Nat)
  | fdstat (s : Fdstat)
  | filestat (s : Filestat)
  | sockstat (s : Sockstat)

/-- The system calls, with their arguments in the order of the C declarations. -/
inductive Syscall where
  | fdClose (fd : Nat)
  | fdCreate1 (type : Nat) (out : Local)
  | fdCreate2 (type : Nat) (fd1 fd2 : Local)
  | fdDatasync (fd : Nat)
  | fdDup (source : Nat) (out : Local)
  | fdPread (fd : Nat) (iov : List Iovec) (iovcnt offset : Nat) (nread : Local)
  | fdPwrite (fd : Nat) (iov : List Iovec) (iovcnt offset : Nat) (nwritten : Local)
  | fdRead (fd : Nat) (iov : List Iovec) (iovcnt : Nat) (nread : Local)
  | fdWrite (fd : Nat) (iov : List Iovec) (iovcnt : Nat) (nwritten : Local)
  | fdReplace (source target : Nat)
  | fdSeek (fd offset whence : Nat) (newoffset : Local)
  | fdStatGet (fd : Nat) (buf : Local)
  | fdStatPut (fd : Nat) (buf : Fdstat) (flags : Nat)
  | fdSync (fd : Nat)
  | memMap (addr len prot flags fd off : Nat) (out : Local)
  | memAdvise (addr len advice : Nat)
  | memProtect (addr len prot : Nat)
  | memSync (addr len flags : Nat)
  | memUnmap (addr len : Nat)
  | fileAdvise (fd offset len advice : Nat)
  | fileAllocate (fd offset len : Nat)
  | fileCreate (fd path pathlen type : Nat)
  | fileLink (fd1 : Lookup) (path1 path1len fd2 path2 path2len : Nat)
  | fileOpen (dirfd : Lookup) (path pathlen oflags : Nat) (fds : Fdstat) (out : Local)
  | fileReadlink (fd path pathlen buf buflen : Nat) (used : Local)
  | fileRename (oldfd old oldlen newfd new newlen : Nat)
  | fileStatFget (fd : Nat) (buf : Local)
  | fileStatGet (fd : Lookup) (path pathlen : Nat) (buf : Local)
  | fileStatFput (fd : Nat) (buf : Filestat) (flags : Nat)
  | fileStatPut (fd : Lookup) (path pathlen : Nat) (buf : Filestat) (flags : Nat)
  | fileSymlink (path1 path1len fd path2 path2len : Nat)
  | fileUnlink (fd path pathlen flags : Nat)
  | poll (subs : List Subscription) (out nsubscriptions : Nat) (nevents : Local)
  | pollFd (fd : Nat) (subs : List Subscription) (nin out nout : Nat)
      (timeout : Subscription) (nevents : Local)
  | procExec (fd data datalen : Nat) (fds : List Nat) (fdslen : Nat)
  | procFork (child tid : Local)
  | procRaise (sig : Nat)
  | randomGet (buf nbyte : Nat)
  | clockResGet (clockId : Nat) (res : Local)
  | clockTimeGet (clockId precision : Nat) (out : Local)
  | sockAccept (sock : Nat) (buf conn : Local)
  | sockBind (sock fd path pathlen : Nat)
  | sockConnect (sock fd path pathlen : Nat)
  | sockListen (sock backlog : Nat)
  | sockShutdown (sock how : Nat)
  | sockStatGet (sock : Nat) (buf : Local) (flags : Nat)

namespace Syscall

def outs : Syscall → List Local
  | .fdCreate1 _ out => [out]
  | .fdCreate2 _ fd1 fd2 => [fd1, fd2]
  | .fdDup _ out => [out]
  | .fdPread _ _ _ _ nread => [nread]
  | .fdPwrite _ _ _ _ nwritten => [nwritten]
  | .fdRead _ _ _ nread => [nread]
  | .fdWrite _ _ _ nwritten => [nwritten]
  | .fdSeek _ _ _ newoffset => [newoffset]
  | .fdStatGet _ buf => [buf]
  | .memMap _ _ _ _ _ _ out => [out]
  | .fileOpen _ _ _ _ _ out => [out]
  | .fileReadlink _ _ _ _ _ used => [used]
  | .fileStatFget _ buf => [buf]
  | .fileStatGet _ _ _ buf => [buf]
  | .poll _ _ _ nevents => [nevents]
  | .pollFd _ _ _ _ _ _ nevents => [nevents]
  | .procFork child tid => [child, tid]
  | .clockResGet _ res => [res]
  | .clockTimeGet _ _ out => [out]
  | .sockAccept _ buf conn => [buf, conn]
  | .sockStatGet _ buf _ => [buf]
  | _ => []

/-- The numbers in descriptor positions, those inside subscriptions included. -/
def descriptors : Syscall → List Nat
  | .fdClose fd => [fd]
  | .fdDatasync fd => [fd]
  | .fdDup source _ => [source]
  | .fdPread fd _ _ _ _ => [fd]
  | .fdPwrite fd _ _ _ _ => [fd]
  | .fdRead fd _ _ _ => [fd]
  | .fdWrite fd _ _ _ => [fd]
  | .fdReplace source target => [source, target]
  | .fdSeek fd _ _ _ => [fd]
  | .fdStatGet fd _ => [fd]
  | .fdStatPut fd _ _ => [fd]
  | .fdSync fd => [fd]
  | .memMap _ _ _ _ fd _ _ => [fd]
  | .fileAdvise fd _ _ _ => [fd]
  | .fileAllocate fd _ _ => [fd]
  | .fileCreate fd _ _ _ => [fd]
  | .fileLink fd1 _ _ fd2 _ _ => [fd1.fd, fd2]
  | .fileOpen dirfd _ _ _ _ _ => [dirfd.fd]
  | .fileReadlink fd _ _ _ _ _ => [fd]
  | .fileRename oldfd _ _ newfd _ _ => [oldfd, newfd]
  | .fileStatFget fd _ => [fd]
  | .fileStatGet fd _ _ _ => [fd.fd]
  | .fileStatFput fd _ _ => [fd]
  | .fileStatPut fd _ _ _ _ => [fd.fd]
  | .fileSymlink _ _ fd _ _ => [fd]
  | .fileUnlink fd _ _ _ => [fd]
  | .poll subs _ _ _ => subs.flatMap Subscription.fds
  | .pollFd fd subs _ _ _ timeout _ => fd :: (subs.flatMap Subscription.fds ++ timeout.fds)
  | .procExec fd _ _ fds _ => fd :: fds
  | .sockAccept sock _ _ => [sock]
  | .sockBind sock fd _ _ => [sock, fd]
  | .sockConnect sock fd _ _ => [sock, fd]
  | .sockListen sock _ => [sock]
  | .sockShutdown sock _ => [sock]
  | .sockStatGet sock _ _ => [sock]
  | _ => []

end Syscall

/-- The error code, `0` for success, and what was stored, in argument order. -/
structure Reply where
  errno : Nat
  stored : List Stored

abbrev Locals := Local → Stored

namespace Locals

/-- Nothing reads a variable before the kernel has stored into it, so any
contents will do. -/
def uninitialised : Locals := fun _ => .word 0

/-- `fd x;` calls the default constructor, which sets `fd_` to `-1`. -/
def declareFd (locals : Locals) (x : Local) : Locals :=
  Function.update locals x (.word noFd)

/-- The kernel stores through the output pointers, one after the other. -/
def store : List Local → List Stored → Locals → Locals
  | x :: outs, v :: stored, locals => store outs stored (Function.update locals x v)
  | _, _, locals => locals

def word (locals : Locals) (x : Local) : Nat :=
  match locals x with
  | .word n => n
  | _ => 0

def fdstat (locals : Locals) (x : Local) : Fdstat :=
  match locals x with
  | .fdstat s => s
  | _ => default

def filestat (locals : Locals) (x : Local) : Filestat :=
  match locals x with
  | .filestat s => s
  | _ => default

def sockstat (locals : Locals) (x : Local) : Sockstat :=
  match locals x with
  | .sockstat s => s
  | _ => default

end Locals

abbrev Wrapper (α : Type) := Program Syscall Reply α

/-- `mstd::error_or<T>`: an error code or a value. -/
abbrev ErrorOr (α : Type) := Except Nat α

/-- `return error(cloudabi_sys_...(...));` with the code itself as result, which
is `0` when the call succeeded. -/
def errorOf (s : Syscall) : Wrapper Nat :=
  .ask s fun reply => .done reply.errno

/-- `if (auto err = cloudabi_sys_...(...)) return error(err); else return value;` -/
def resultOf {α : Type} (s : Syscall) (locals : Locals) (value : Locals → α) :
    Wrapper (ErrorOr α) :=
  .ask s fun reply =>
    if reply.errno ≠ 0 then .done (.error reply.errno)
    else .done (.ok (value (locals.store s.outs reply.stored)))

@[simp] theorem issues_errorOf (q s : Syscall) : (errorOf s).Issues q ↔ s = q := by
  simp [errorOf]

@[simp] theorem issues_resultOf {α : Type} (q s : Syscall) (locals : Locals)
    (value : Locals → α) : (resultOf s locals value).Issues q ↔ s = q := by
  have hend : ∀ reply : Reply, ¬ Program.Issues q
      (if reply.errno ≠ 0 then .done (.error reply.errno)
        else .done (.ok (value (locals.store s.outs reply.stored))) :
        Wrapper (ErrorOr α)) := by
    intro reply
    split <;> exact Program.issues_done _ _
  simp only [resultOf, Program.issues_ask, hend, exists_false, or_false]

@[simp] theorem trace_resultOf {α σ : Type} (handle : σ → Syscall → Reply × σ) (k : σ)
    (s : Syscall) (locals : Locals) (value : Locals → α) :
    (resultOf s locals value).trace handle k = [s] := by
  simp only [resultOf, Program.trace_ask]
  split <;> rfl

theorem exec_resultOf {α σ : Type} (handle : σ → Syscall → Reply × σ) (k : σ)
    (s : Syscall) (locals : Locals) (value : Locals → α) :
    (resultOf s locals value).exec handle k =
      (if (handle k s).1.errno ≠ 0 then .error (handle k s).1.errno
        else .ok (value (locals.store s.outs (handle k s).1.stored)), (handle k s).2) := by
  simp only [resultOf, Program.exec_ask]
  split <;> rfl

end CloudabiCpp.Wrappers.Syscalls

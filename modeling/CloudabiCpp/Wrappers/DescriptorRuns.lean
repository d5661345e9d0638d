import Mathlib.Data.Finset.Basic
import CloudabiCpp.Lib.Ownership
import CloudabiCpp.Lib.Runs
import CloudabiCpp.Wrappers.FreeFunctions

/-!
A process that opens descriptors through the wrappers and keeps them in
`unique_fd` objects, and the kernel it runs on: the set of open descriptors. How
a system call ends is up to the kernel, so every call of a run comes with the
kernel's decision.
-/

namespace CloudabiCpp.Wrappers.DescriptorRuns

open CloudabiCpp.Lib.Interaction
open CloudabiCpp.Lib.LiveObjects
open CloudabiCpp.Lib.Ownership
open CloudabiCpp.Lib.Runs
open CloudabiCpp.Wrappers.Syscalls
open CloudabiCpp.Wrappers.FdImpl

structure Kernel where
  descriptors : Finset Nat
  /-- Those that were opened through a wrapper. -/
  opened : Finset Nat
  deriving DecidableEq

/-- How an opening system call ends. A successful `fork` returns twice, in the
child with `CLOUDABI_PROCESS_CHILD`, which is no descriptor. -/
inductive Decision where
  | failure (errno : Nat) (stored : List Stored)
  | success (fresh : List Nat) (tid : Nat) (stat : Sockstat)
  | child (tid : Nat)

def opens : Syscall → Nat
  | .fdCreate1 _ _ | .fdDup _ _ | .fileOpen _ _ _ _ _ _ | .sockAccept _ _ _
  | .procFork _ _ => 1
  | .fdCreate2 _ _ _ => 2
  | _ => 0

/-- What a successful system call stores, in the order of its output pointers. -/
def stored (fresh : List Nat) (tid : Nat) (stat : Sockstat) : Syscall → List Stored
  | .sockAccept _ _ _ => .sockstat stat :: fresh.map .word
  | .procFork _ _ => fresh.map .word ++ [.word tid]
  | _ => fresh.map .word

def isFork : Syscall → Bool
  | .procFork _ _ => true
  | _ => false

def Decision.Legal (k : Kernel) (s : Syscall) : Decision → Prop
  | .failure errno _ => errno ≠ 0
  | .success fresh _ _ =>
      fresh.length = opens s ∧ fresh.Nodup ∧ ∀ fd ∈ fresh, fd < noFd ∧ fd ∉ k.descriptors
  | .child _ => isFork s = true

instance (k : Kernel) (s : Syscall) (d : Decision) : Decidable (d.Legal k s) :=
  match d with
  | .failure errno _ => inferInstanceAs (Decidable (errno ≠ 0))
  | .success fresh _ _ => inferInstanceAs (Decidable (_ ∧ fresh.Nodup ∧ _))
  | .child _ => inferInstanceAs (Decidable (isFork s = true))

namespace Kernel

def grant (k : Kernel) (fresh : List Nat) : Kernel :=
  ⟨k.descriptors ∪ fresh.toFinset, k.opened ∪ fresh.toFinset⟩

def close (k : Kernel) (fd : Nat) : Kernel :=
  ⟨k.descriptors.erase fd, k.opened.erase fd⟩

def answer (d : Decision) (k : Kernel) (s : Syscall) : Reply × Kernel :=
  match d with
  | .failure errno contents => (⟨errno, contents⟩, k)
  | .success fresh tid stat => (⟨0, stored fresh tid stat s⟩, k.grant fresh)
  | .child tid => (⟨0, [.word noFd, .word tid]⟩, k)

/-- The error code for a number that is no open descriptor is ignored. -/
def answerClose (k : Kernel) : Syscall → Reply × Kernel
  | .fdClose fd => if fd ∈ k.descriptors then (⟨0, []⟩, k.close fd) else (⟨1, []⟩, k)
  | _ => (⟨1, []⟩, k)

end Kernel

inductive Opening where
  | create1 (ft : EnumClass .filetype)
  | create2 (ft : EnumClass .filetype)
  | dup (self : Fd)
  | fileOpen (self : Fd) (path : Buffer) (baseRights : EnumClass .rights)
      (oflags : EnumClass .oflags) (fdflags : EnumClass .fdflags)
      (inheritingRights : EnumClass .rights) (followSymlinks : Bool)
  | sockAccept (self : Fd)
  | procFork

namespace Opening

def wrapper (types : TypesHeader) : Opening → Wrapper (ErrorOr (List UniqueFd))
  | .create1 ft => (Fd.create1 ft).map (Except.map fun u => [u])
  | .create2 ft => (Fd.create2 ft).map (Except.map fun r => [r.1, r.2])
  | .dup self => self.dup.map (Except.map fun u => [u])
  | .fileOpen self path baseRights oflags fdflags inheritingRights followSymlinks =>
      (self.fileOpen types path baseRights oflags fdflags inheritingRights followSymlinks).map
        (Except.map fun u => [u])
  | .sockAccept self => self.sockAccept.map (Except.map fun r => [r.fd])
  | .procFork => FreeFunctions.procFork.map (Except.map fun r => [r.fd])

def results : Opening → Nat
  | .create2 _ => 2
  | _ => 1

end Opening

/-- One step of the program. A call names the addresses where its results are
kept if it succeeds. -/
inductive Op where
  | call (c : Opening) (d : Decision) (slots : List Nat)
  | moveConstruct (dst src : Nat)
  | moveAssign (dst src : Nat)
  | destroy (a : Nat)

structure Process where
  kernel : Kernel
  objects : Objects UniqueFd

namespace Process

/-- The objects that own something, and what. -/
def held (s : Process) : Nat → Option Nat :=
  heldAt UniqueFd.owned s.objects

/-- A process that owns nothing yet; other descriptors may be open. -/
def start (descriptors : Finset Nat) (bytes : Nat → UniqueFd) : Process where
  kernel := ⟨descriptors, ∅⟩
  objects := ⟨[], bytes⟩

def keep (objects : Objects UniqueFd) (placed : List (Nat × UniqueFd)) : Objects UniqueFd :=
  placed.foldl (fun o p => o.place p.1 p.2) objects

/-- A move leaves its source empty; move assignment then closes what the target
held before it takes over. -/
def exec (types : TypesHeader) (s : Process) : Op → Process
  | .call c d slots =>
      match (c.wrapper types).exec (Kernel.answer d) s.kernel with
      | (.error _, k) => ⟨k, s.objects⟩
      | (.ok us, k) => ⟨k, keep s.objects (slots.zip us)⟩
  | .moveConstruct dst src =>
      ⟨s.kernel, (s.objects.put src UniqueFd.empty).place dst (s.objects.obj src)⟩
  | .moveAssign dst src =>
      let taken := s.objects.obj src
      let objects := s.objects.put src UniqueFd.empty
      ⟨((objects.obj dst).destroy.exec Kernel.answerClose s.kernel).2, objects.put dst taken⟩
  | .destroy a =>
      ⟨((s.objects.obj a).destroy.exec Kernel.answerClose s.kernel).2, s.objects.remove a⟩

def Legal (types : TypesHeader) (s : Process) : Op → Prop
  | .call c d slots =>
      (∀ sys ∈ (c.wrapper types).trace (Kernel.answer d) s.kernel, d.Legal s.kernel sys) ∧
        slots.length = c.results ∧ slots.Nodup ∧ ∀ a ∈ slots, a ∉ s.objects.live
  | .moveConstruct dst src => dst ∉ s.objects.live ∧ src ∈ s.objects.live
  | .moveAssign dst src => dst ∈ s.objects.live ∧ src ∈ s.objects.live
  | .destroy a => a ∈ s.objects.live

instance (types : TypesHeader) (s : Process) (op : Op) : Decidable (s.Legal types op) :=
  match op with
  | .call _ _ _ => inferInstanceAs (Decidable (_ ∧ _))
  | .moveConstruct _ _ => inferInstanceAs (Decidable (_ ∧ _))
  | .moveAssign _ _ => inferInstanceAs (Decidable (_ ∧ _))
  | .destroy _ => inferInstanceAs (Decidable (_ ∈ _))

end Process

end CloudabiCpp.Wrappers.DescriptorRuns

import CloudabiCpp.Wrappers.FdImpl

/-!
The wrappers that are no members of `fd`: `mem.hpp`, `poll.hpp`, `random.hpp`,
`clock.hpp` and `proc.hpp`.
-/

namespace CloudabiCpp.Wrappers.FreeFunctions

open CloudabiCpp.Wrappers.Syscalls CloudabiCpp.Wrappers.FdImpl
open Locals

def memAdvise (mem : Buffer) (a : EnumClass .advice) : Wrapper Nat :=
  errorOf (.memAdvise mem.data mem.size a.repr)

/-- The descriptor is built from `CLOUDABI_MAP_ANON`, which is a flag. -/
def memMap (types : TypesHeader) (len : Nat) (prot : EnumClass .mprot)
    (flags : EnumClass .mflags) (addr : Nat) : Wrapper (ErrorOr Nat) :=
  Fd.memMap ⟨types.mapAnon⟩ len 0 prot flags addr

def memProtect (mem : Buffer) (prot : EnumClass .mprot) : Wrapper Nat :=
  errorOf (.memProtect mem.data mem.size prot.repr)

def memSync (mem : Buffer) (flags : EnumClass .msflags) : Wrapper Nat :=
  errorOf (.memSync mem.data mem.size flags.repr)

def memUnmap (mem : Buffer) : Wrapper Nat :=
  errorOf (.memUnmap mem.data mem.size)

def poll (types : TypesHeader) (input : List Subscription) (out : Buffer) :
    Wrapper (ErrorOr Nat) :=
  if out.size < input.length then
    .done (.error types.inval)
  else
    resultOf (.poll input out.data input.length .nEvents) uninitialised
      fun locals => locals.word .nEvents

def randomGet (buf : Buffer) : Wrapper Nat :=
  errorOf (.randomGet buf.data buf.size)

def clockResGet (clockId : EnumClass .clockid) : Wrapper (ErrorOr Nat) :=
  resultOf (.clockResGet clockId.repr .resolution) uninitialised
    fun locals => locals.word .resolution

def clockTimeGet (clockId : EnumClass .clockid) (precision : Nat) : Wrapper (ErrorOr Nat) :=
  resultOf (.clockTimeGet clockId.repr precision .time) uninitialised
    fun locals => locals.word .time

structure ForkResult where
  fd : UniqueFd
  tid : Nat

def procFork : Wrapper (ErrorOr ForkResult) :=
  resultOf (.procFork .f .t) uninitialised fun locals => ⟨uniqueFd locals .f, locals.word .t⟩

def procRaise (sig : EnumClass .signal) : Wrapper Nat :=
  errorOf (.procRaise sig.repr)

end CloudabiCpp.Wrappers.FreeFunctions

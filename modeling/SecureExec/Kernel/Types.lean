import Mathlib.Data.UInt

/-!
# Kernel — Types — errors and flags

The error codes and constants of `packages/core/src/kernel/types.ts` that the modelled functions
use.  A `KernelError` carries its code and its message; a `Failure` is anything a modelled function
can throw: a `KernelError`, or an error that a component outside this repository (a runtime
driver) raised, or the `RangeError` of a typed array.
-/

namespace SecureExec

/-- `KernelErrorCode`. -/
inductive KernelErrorCode where
  | EACCES | EADDRINUSE | EAGAIN | EBADF | ECONNREFUSED | EINPROGRESS | EINTR | EEXIST | EINVAL
  | ELOOP | EIO | EISDIR | EMFILE | EMSGSIZE | ENOENT | ENOSPC | ENOSYS | ENOTCONN | ENOTEMPTY
  | ENOTDIR | EPERM | EPIPE | EROFS | ESPIPE | ESRCH | ETIMEDOUT | EXDEV
  deriving DecidableEq

/-- What a modelled function can throw. -/
inductive Failure where
  /-- `new KernelError(code, message)`. -/
  | kernelError (code : KernelErrorCode) (message : String)
  /-- `new Error(message)`. -/
  | error (message : String)
  /-- The `RangeError` of a typed array. -/
  | rangeError
  deriving DecidableEq

/-! ### FD open flags -/

/-- Flag words are 32-bit integers, as JavaScript's bit operators take them. -/
abbrev Flags : Type := BitVec 32

def O_RDONLY : Flags := 0
def O_WRONLY : Flags := 1
def O_RDWR : Flags := 2
def O_CREAT : Flags := 0o100
def O_EXCL : Flags := 0o200
def O_TRUNC : Flags := 0o1000
def O_APPEND : Flags := 0o2000
def O_NONBLOCK : Flags := 0o4
def O_CLOEXEC : Flags := 0o2000000

/-- `(flags & bits) !== 0`. -/
def Flags.has (flags bits : Flags) : Bool := (flags &&& bits) != 0

/-- A `Uint8Array`. -/
abbrev ByteArray8 : Type := List UInt8

/-! ### File descriptions -/

/-- `FileDescription`. -/
structure FileDescription where
  id : Nat
  path : String
  cursor : Nat
  flags : Flags
  refCount : Int
  creationMode : Option Nat := none
  deriving DecidableEq

/-! ### File types -/

def FILETYPE_CHARACTER_DEVICE : Nat := 2
def FILETYPE_REGULAR_FILE : Nat := 4
def FILETYPE_PIPE : Nat := 6

end SecureExec

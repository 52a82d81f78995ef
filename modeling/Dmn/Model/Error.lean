import Dmn.Library.Exec

/-! # Exceptions of the library -/

namespace Dmn

/-- Status words of native calls, as far as the library tells them apart. -/
inductive Status where
  | noError
  | notFound
  | noExist
  | invalidNote
  | noteDeleted
  | itemNotFound
  | aclNoEntry
  | noteAlreadyLockedByLocker
  | noteLocked
  | noteLockedBySomeone
  | noteNotLockedByLocker
  | other (code : UInt16)
  deriving DecidableEq, Repr

namespace Status

def isNotFound : Status → Bool
  | notFound | noExist | invalidNote | noteDeleted | itemNotFound | aclNoEntry => true
  | _ => false

def isLocked : Status → Bool
  | noteAlreadyLockedByLocker | noteLocked | noteLockedBySomeone | noteNotLockedByLocker => true
  | _ => false

def isError (s : Status) : Bool := s ≠ noError

end Status

/-- The exception classes of `error.hpp` with the message they carry. -/
inductive Error where
  | threadError (message : String)
  | threadAccessError (message : String)
  | invalidHandle (message : String)
  | invalidArgument (message : String)
  | conversionError (message : String)
  | runtimeError (message : String)
  | overflowError (message : String)
  | outOfRange (message : String)
  | formattingError (message : List UInt8)
  | nativeError (message : String) (code : Status)
  deriving DecidableEq, Repr

/-- How a call can end other than by returning: it throws, or it leaves what the
language defines (a copy from or to memory outside the block it was given). -/
inductive Stop where
  | throws (error : Error)
  | undefined
  deriving DecidableEq, Repr

/-- `status::throw_if_error`. -/
def Status.throwIfError {m : Type → Type} [Monad m] [MonadExcept Stop m]
    (result : Status) (message : String) : m Unit :=
  if result.isError then throw (.throws (.nativeError message result)) else pure ()

theorem Status.exec_throwIfError {σ : Type} (result : Status) (message : String) (s : σ) :
    Exec.exec (result.throwIfError message : Exec Stop σ Unit) s =
      if result.isError then (.error (.throws (.nativeError message result)), s)
      else (.ok (), s) := by
  unfold Status.throwIfError
  split <;> rfl

theorem Status.exec_throwIfError_noError {σ : Type} (message : String) (s : σ) :
    Exec.exec (Status.noError.throwIfError message : Exec Stop σ Unit) s = (.ok (), s) := rfl

theorem Status.exec_throwIfError_of_ne {σ : Type} {status : Status} (h : status ≠ .noError)
    (message : String) (s : σ) : Exec.exec (status.throwIfError message : Exec Stop σ Unit) s =
      (.error (.throws (.nativeError message status)), s) := by
  have herror : status.isError = true := by simpa [isError] using h
  rw [exec_throwIfError, if_pos herror]

end Dmn

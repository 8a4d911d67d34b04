/-!
# Errors

The error type every fallible operation of the storage engine returns. A text argument is the
text the source formats at the place where the error is made.
-/

namespace SmolDb

/-- The kinds of I/O error the engine can meet: reading past the end of a file is told apart
from every other failure. -/
inductive IoErrorKind where
  | unexpectedEof
  | other
  deriving DecidableEq, Repr

/-- `DbError`. -/
inductive DbError where
  | pageNotFound (id : UInt64)
  | pageFull
  | tupleTooLarge (size : Nat)
  | io (kind : IoErrorKind)
  | corruptPage (reason : String)
  | lruEviction
  | duplicateKey (key : UInt64)
  | keyNotFound (key : UInt64)
  deriving DecidableEq, Repr

end SmolDb

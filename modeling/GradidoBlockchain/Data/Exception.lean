import Mathlib.Algebra.Group.Int.Defs
import Mathlib.Algebra.Group.Nat.Defs

/-!
# Exceptions

The exception classes that the modelled functions throw, with their texts and
the fields they name.  The formatted `expected` and `actual` values of an
invalid input are presentation and are left out.
-/

namespace Gradido

/-- `grdt_address`. -/
inductive AddressType
  | none
  | communityHuman
  | communityGmw
  | communityAuf
  | communityProject
  | subaccount
  | cryptoAccount
  | deferredTransfer
deriving DecidableEq, Repr

/-- The subclasses of `GradidoBlockchainException` that the modelled code throws, and two exceptions
of the standard library: `outOfRange` and `badFunctionCall`, the call of an empty `std::function`.
`nullDereference` stands for a null pointer that the code follows without a check. -/
inductive Exception
  | transactionValidation (what : String)
  | transactionValidationInvalidInput (what fieldName fieldType : String)
  | transactionValidationMissingSign (currentSignCount requiredSignCount : ℕ)
  | transactionValidationRequiredSignMissing (missingPublicKeys : List ℕ)
  | transactionValidationForbiddenSign (forbiddenPublicKey : ℕ)
  | transactionValidationInvalidSignature (what : String) (publicKey signature : ℕ)
  | pairingTransactionNotMatch (what : String)
  | wrongAddressType (what : String) (type : AddressType) (publicKey communityIdIndex : ℕ)
  | addressAlreadyExist (what : String) (type : AddressType)
  | blockchainOrder (what : String)
  | insufficientBalance (what : String) (needed exist : ℤ)
  | invalidCreation (what : String) (targetMonth : ℕ) (targetYear : ℤ) (newSum currentSum : ℤ)
  | gradidoNodeInvalidData (what : String)
  | gradidoNullPointer (what expectedType : String)
  | gradidoUnhandledEnum (what enumName : String)
  | gradidoNotImplemented (what : String)
  | endDateBeforeStartDate (what : String)
  | transactionResultCount (what : String) (expectedCount resultCount : ℕ)
  | transactionNotFound (what : String) (transactionId : ℕ)
  | outOfRange (what : String)
  | badFunctionCall
  | nullDereference (what : String)
deriving DecidableEq, Repr

end Gradido

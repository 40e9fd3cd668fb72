import TwoPhaseLocking.Resource
import TwoPhaseLocking.Status

/-! # How a call fails

Breaking a locking rule aborts the transaction and reports the rule. The other
failures leave the transaction as it is.
-/

namespace TwoPhaseLocking

inductive LockError where
  /-- The call broke a rule and its transaction was aborted for it. -/
  | aborted (txn : TxnId) (reason : AbortReason)
  /-- The transaction had already committed or aborted. -/
  | notActive (txn : TxnId) (state : TxnState)
  /-- No active transaction has this identifier. -/
  | unknown (txn : TxnId)
  /-- A transaction's lock set and the queues disagree. -/
  | invariantViolation (message : String)
deriving DecidableEq, Repr

namespace LockError

def message : LockError → String
  | aborted txn reason => s!"{TxnId.text txn} aborted: {reason.text}"
  | notActive txn state => s!"{TxnId.text txn} is not active (state {state.name})"
  | unknown txn => s!"unknown transaction {TxnId.text txn}"
  | invariantViolation message => s!"lock table invariant violated: {message}"

def reason? : LockError → Option AbortReason
  | aborted _ reason => some reason
  | _ => none

/-- A lock is recorded for a resource that nobody has ever queued for. -/
def queueMissing (txn : TxnId) (mode : Mode) (r : Resource) : LockError :=
  invariantViolation s!"{TxnId.text txn} holds {mode.text} on {r.text} but no queue exists"

/-- A lock is recorded but the queue has no request of its holder. -/
def requestMissing (txn : TxnId) (mode : Mode) (r : Resource) : LockError :=
  invariantViolation s!"{TxnId.text txn} holds {mode.text} on {r.text} but has no request queued"

end LockError

end TwoPhaseLocking

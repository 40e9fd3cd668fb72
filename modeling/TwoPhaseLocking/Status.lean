/-! # Isolation, state and abort reasons of a transaction

A transaction first grows, collecting locks, then shrinks, giving them back, and ends
committed or aborted. How strictly the two phases are kept apart depends on its
isolation level.
-/

namespace TwoPhaseLocking

/-- How far a transaction is shielded from the writes of others. -/
inductive Isolation where
  | repeatableRead
  | readCommitted
  | readUncommitted
deriving DecidableEq, Repr

instance : Inhabited Isolation := ⟨.repeatableRead⟩

/-- Where a transaction stands. -/
inductive TxnState where
  | growing
  | shrinking
  | committed
  | aborted
deriving DecidableEq, Repr

instance : Inhabited TxnState := ⟨.growing⟩

/-- The rule a transaction was aborted for, or `deadlock` for the victim of a cycle. -/
inductive AbortReason where
  | lockOnShrinking
  | lockSharedOnReadUncommitted
  | upgradeConflict
  | incompatibleUpgrade
  | attemptedUnlockButNoLockHeld
  | tableUnlockedBeforeUnlockingRows
  | attemptedIntentionLockOnRow
  | tableLockNotPresent
  | deadlock
deriving DecidableEq, Repr, Inhabited

namespace Isolation

def name : Isolation → String
  | repeatableRead => "RepeatableRead"
  | readCommitted => "ReadCommitted"
  | readUncommitted => "ReadUncommitted"

end Isolation

namespace TxnState

def name : TxnState → String
  | growing => "Growing"
  | shrinking => "Shrinking"
  | committed => "Committed"
  | aborted => "Aborted"

/-- Committed and aborted transactions take no further locks. -/
def isTerminal : TxnState → Bool
  | growing | shrinking => false
  | committed | aborted => true

@[simp]
theorem isTerminal_iff {st : TxnState} :
    st.isTerminal = true ↔ st = committed ∨ st = aborted := by
  cases st <;> simp [isTerminal]

end TxnState

namespace AbortReason

def name : AbortReason → String
  | lockOnShrinking => "LockOnShrinking"
  | lockSharedOnReadUncommitted => "LockSharedOnReadUncommitted"
  | upgradeConflict => "UpgradeConflict"
  | incompatibleUpgrade => "IncompatibleUpgrade"
  | attemptedUnlockButNoLockHeld => "AttemptedUnlockButNoLockHeld"
  | tableUnlockedBeforeUnlockingRows => "TableUnlockedBeforeUnlockingRows"
  | attemptedIntentionLockOnRow => "AttemptedIntentionLockOnRow"
  | tableLockNotPresent => "TableLockNotPresent"
  | deadlock => "Deadlock"

/-- The reason in words, as error messages give it. -/
def text : AbortReason → String
  | lockOnShrinking => "lock requested in shrinking phase"
  | lockSharedOnReadUncommitted => "shared lock requested under read uncommitted"
  | upgradeConflict => "another upgrade is in progress on this resource"
  | incompatibleUpgrade => "incompatible lock upgrade"
  | attemptedUnlockButNoLockHeld => "unlock attempted but no lock held"
  | tableUnlockedBeforeUnlockingRows => "table unlocked before its rows"
  | attemptedIntentionLockOnRow => "intention lock requested on a row"
  | tableLockNotPresent => "row lock requested without a table lock"
  | deadlock => "chosen as deadlock victim"

end AbortReason

end TwoPhaseLocking

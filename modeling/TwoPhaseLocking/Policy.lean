import TwoPhaseLocking.Mode
import TwoPhaseLocking.Resource
import TwoPhaseLocking.Status

/-! # The locking rules

Pure decisions, taken before a request reaches its queue. A rule either has no
objection (`none`) or names the reason for which the transaction is to be aborted.
-/

namespace TwoPhaseLocking.Policy

/-- A repeatable-read transaction locks only while growing; a read-committed one may
still read while shrinking; a read-uncommitted one never reads under a lock and writes
only while growing. -/
def isolation (iso : Isolation) (state : TxnState) (mode : Mode) : Option AbortReason :=
  match iso with
  | .repeatableRead =>
    if state = .growing then none else some .lockOnShrinking
  | .readCommitted =>
    if state = .growing ∨ mode = .shared ∨ mode = .intentionShared then none
    else some .lockOnShrinking
  | .readUncommitted =>
    if mode ≠ .intentionExclusive ∧ mode ≠ .exclusive then some .lockSharedOnReadUncommitted
    else if state = .growing then none
    else some .lockOnShrinking

/-- Rows are locked in plain modes only. -/
def rowMode (mode : Mode) : Option AbortReason :=
  if mode.isIntention then some .attemptedIntentionLockOnRow else none

/-- Whether a table lock in mode `held` permits locking rows of the table in `mode`. -/
def covers : (held mode : Mode) → Bool
  | _, .shared => true
  | .exclusive, .exclusive => true
  | .intentionExclusive, .exclusive => true
  | .sharedIntentionExclusive, .exclusive => true
  | _, _ => false

/-- A row lock needs a lock on its table that covers it. -/
def tableLockForRow (held : Option Mode) (mode : Mode) : Option AbortReason :=
  if held.any (covers · mode) then none else some .tableLockNotPresent

/-- A lock already held may only be strengthened. -/
def upgrade (held requested : Mode) : Option AbortReason :=
  if held.canUpgradeTo requested then none else some .incompatibleUpgrade

/-- The first objection to a request on `resource`, when the transaction holds the
resource in `held` and the resource's table in `cover`. -/
def request (iso : Isolation) (state : TxnState) (mode : Mode) (resource : Resource)
    (held cover : Option Mode) : Option AbortReason :=
  (isolation iso state mode)
    |>.or (if resource.isRow then rowMode mode else none)
    |>.or (if resource.isRow then tableLockForRow cover mode else none)
    |>.or (held.bind (upgrade · mode))

/-- Whether giving back a lock in `mode` starts the shrinking phase. -/
def unlockEndsGrowing (iso : Isolation) (mode : Mode) : Bool :=
  match iso with
  | .repeatableRead => mode == .shared || mode == .exclusive
  | .readCommitted | .readUncommitted => mode == .exclusive

end TwoPhaseLocking.Policy

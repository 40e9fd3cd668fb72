import TwoPhaseLocking.Policy
import TwoPhaseLocking.Engine

/-! # Unlock calls

A lock is given back under the mode recorded for it, a table only after its rows. Giving
back may begin the shrinking phase, unless it is `forced`.
-/

namespace TwoPhaseLocking

/-- The points of an unlock call at which it holds on to nothing. -/
inductive UnlockGap where
  | heldRead
  /-- It is known that no row of the table is locked. -/
  | rowsRead
  | queueFound
  | released
  /-- A rule is broken, but the transaction is not yet marked aborted. -/
  | refusing
deriving DecidableEq, Repr

/-- What a call comes to that returns nothing else. -/
inductive Outcome where
  | done
  | failed (error : LockError)
deriving DecidableEq, Repr

namespace Engine

/-- An unlock call with `pause g` done by others at each gap `g`. -/
def unlockWith (pause : UnlockGap → Engine → Engine) (s : Engine) (h : Handle)
    (r : Resource) (forced : Bool) : Engine × Outcome :=
  let me := (s.txn h).id
  match (s.txn h).locks.mode? r with
  | none =>
    ((pause .refusing s).refuse h .attemptedUnlockButNoLockHeld).map id .failed
  | some m =>
    let s := pause .heldRead s
    if r.isTable && (s.txn h).locks.hasRowsOn r.tableId then
      ((pause .refusing s).refuse h .tableUnlockedBeforeUnlockingRows).map id .failed
    else
      let s := pause .rowsRead s
      if r.key ∉ s.queues then
        (s, .failed (.queueMissing me m r))
      else
        let s := pause .queueFound s
        if (s.queue r.key).has me then
          let s := (s.updateQueue r.key (·.remove me)).updateTxn h (·.forget r m)
          let s := pause .released (s.grantAndNotify r.key)
          let s :=
            if !forced && Policy.unlockEndsGrowing (s.txn h).isolation m then
              s.updateTxn h (·.beginShrinking)
            else s
          (s.tally Stats.unlock, .done)
        else
          (s, .failed (.requestMissing me m r))

def unlock (s : Engine) (h : Handle) (r : Resource) (forced : Bool) :
    Engine × Outcome :=
  unlockWith (fun _ s => s) s h r forced

end Engine

end TwoPhaseLocking

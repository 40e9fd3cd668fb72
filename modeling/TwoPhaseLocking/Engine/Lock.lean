import TwoPhaseLocking.Policy
import TwoPhaseLocking.Engine

/-! # Lock calls

A lock call reads its transaction's state and locks, asks the locking rules, and only
then enters the queue, where it is granted, falls asleep, or finds its transaction
aborted. What others may do between these steps is passed in as `pause`. A call that
nobody interrupts is `Engine.lock`.
-/

namespace TwoPhaseLocking

structure LockCall where
  number : Nat
  handle : Handle
  mode : Mode
  resource : Resource
deriving DecidableEq, Repr, Inhabited

/-- What a lock call comes to. It returns `true` with the lock held, and `false` if its
transaction was aborted before that. -/
inductive LockReply where
  | returned (granted : Bool)
  | failed (error : LockError)
  | asleep
deriving DecidableEq, Repr

/-- The points of a lock call at which it holds on to nothing. -/
inductive LockGap where
  | stateRead
  | registered
  | heldRead
  | coverRead
  | queueOpened
  /-- A rule is broken, but the transaction is not yet marked aborted. -/
  | refusing
deriving DecidableEq, Repr

def LockCall.request (c : LockCall) (id : TxnId) : Request :=
  { call := c.number, txn := id, mode := c.mode, resource := c.resource }

namespace Engine

/-- The end of a call whose request was granted or whose transaction was aborted. An
aborted one withdraws its request, and the queue is looked through once more. -/
def conclude (s : Engine) (c : LockCall) : Engine × Bool :=
  let me := (s.txn c.handle).id
  let k := c.resource.key
  let s := s.updateQueue k (·.clearUpgrading me)
  if (s.txn c.handle).isAborted then
    (((s.updateQueue k (·.remove me)).grantAndNotify k).tally Stats.abortedWait, false)
  else
    (s.updateTxn c.handle (·.record c.resource c.mode), true)

/-- Looks through the queue that the request has just joined, and then returns or sleeps. -/
def await (s : Engine) (c : LockCall) (upgradeOf : Option Mode) : Engine × LockReply :=
  let me := (s.txn c.handle).id
  let s := s.grantAndNotify c.resource.key
  if (s.queue c.resource.key).isGranted me then
    ((s.tally Stats.immediateGrant).conclude c).map id .returned
  else
    let s := s.tally Stats.wait
    if (s.txn c.handle).isAborted then
      (s.conclude c).map id .returned
    else
      let w : Sleeper :=
        { call := c.number, handle := c.handle, mode := c.mode, resource := c.resource,
          upgradeOf }
      ({ s with sleepers := s.sleepers ++ [w] }, .asleep)

/-- Joins the queue: at the end with a new request, ahead of those who wait with one that
replaces the lock `held`. The lock is given up for that, and only one transaction at a
time may do so on a resource. -/
def enqueue (pause : LockGap → Engine → Engine) (s : Engine) (c : LockCall)
    (held : Option Mode) : Engine × LockReply :=
  let me := (s.txn c.handle).id
  let k := c.resource.key
  let s := s.tally Stats.lockRequest
  match held with
  | none => (s.updateQueue k (·.push (c.request me))).await c none
  | some m =>
    if (s.queue k).upgrading.isSome then
      ((pause .refusing s).refuse c.handle .upgradeConflict).map id .failed
    else if (s.queue k).has me then
      let s := s.updateQueue k fun q => (q.remove me).insertUpgrade (c.request me)
      let s := s.updateTxn c.handle (·.forget c.resource m)
      (s.tally Stats.upgrade).await c (some m)
    else
      (s, .failed (.requestMissing me m c.resource))

/-- A lock call with `pause g` done by others at each gap `g`. -/
def lockWith (pause : LockGap → Engine → Engine) (s : Engine) (c : LockCall) :
    Engine × LockReply :=
  let t := s.txn c.handle
  if t.state.isTerminal then
    (s, .failed (.notActive t.id t.state))
  else
    let s := pause .registered ((pause .stateRead s).register c.handle)
    let held := (s.txn c.handle).locks.mode? c.resource
    if held = some c.mode then
      (s, .returned true)
    else
      let s := pause .heldRead s
      let cover := (s.txn c.handle).locks.mode? (.table c.resource.tableId)
      let s := pause .coverRead s
      match Policy.request t.isolation t.state c.mode c.resource held cover with
      | some reason =>
        ((pause .refusing s).refuse c.handle reason).map id .failed
      | none => enqueue pause (pause .queueOpened (s.updateQueue c.resource.key id)) c held

def lock (s : Engine) (c : LockCall) : Engine × LockReply :=
  lockWith (fun _ s => s) s c

end Engine

end TwoPhaseLocking

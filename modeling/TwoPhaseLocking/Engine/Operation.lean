import TwoPhaseLocking.Engine.Detect

/-! # What a client can do

The operations of a lock manager and its transactions as data. `perform` carries one out
up to the point where it has returned or sleeps. Calls that it notified have not looked at
their queues yet.
-/

namespace TwoPhaseLocking

inductive Op where
  | begin (isolation : Isolation)
  | adopt (id : TxnId) (isolation : Isolation)
  | letGo (h : Handle)
  | lock (call : LockCall)
  | unlock (h : Handle) (r : Resource) (forced : Bool)
  | releaseAll (h : Handle)
  | commit (h : Handle)
  | abort (h : Handle)
  | abortAndWake (h : Handle)
  | unregister (id : TxnId)
  | setState (h : Handle) (state : TxnState)
  | detect
  | addEdge (e : Edge)
  | removeEdge (e : Edge)
  | startDetector
  | stopDetector
deriving DecidableEq, Repr

inductive Reply where
  | done
  | failed (error : LockError)
  | began (h : Handle) (id : TxnId)
  | locked (granted : Bool)
  | unlocked
  | asleep
  | victims (ids : List TxnId)
  /-- No client holds such a transaction. -/
  | noSuchTransaction
deriving DecidableEq, Repr

/-- The transaction an operation is about, if it names one by handle. -/
def Op.handle? : Op → Option Handle
  | lock c => some c.handle
  | letGo h | unlock h .. | releaseAll h | commit h | abort h | abortAndWake h | setState h _ =>
    some h
  | begin _ | adopt .. | unregister _ | detect | addEdge _ | removeEdge _ | startDetector
  | stopDetector => none

def Reply.ofLock : LockReply → Reply
  | .returned granted => locked granted
  | .failed e => failed e
  | .asleep => asleep

def Reply.ofOutcome (success : Reply) : Outcome → Reply
  | .done => success
  | .failed e => failed e

namespace Engine

def isUsable (s : Engine) (h : Handle) : Bool :=
  s.txns[h]?.any (·.kept)

def carryOut (w : Walk) (s : Engine) : Op → Engine × Reply
  | .begin iso => (s.begin iso, .began s.txns.size s.nextId)
  | .adopt id iso => (s.adopt id iso, .began s.txns.size id)
  | .letGo h => (s.letGo h, .done)
  | .lock c => (s.lock c).map id .ofLock
  | .unlock h r forced => (s.unlock h r forced).map id (.ofOutcome .unlocked)
  | .releaseAll h => (s.releaseAll w h).map id (.ofOutcome .done)
  | .commit h => (s.commit w h).map id (.ofOutcome .done)
  | .abort h => (s.abort w h).map id (.ofOutcome .done)
  | .abortAndWake h => (s.abortAndWake w h, .done)
  | .unregister id => (s.unregister id, .done)
  | .setState h state => (s.updateTxn h fun t => { t with state }, .done)
  | .detect => (s.detect w).map id .victims
  | .addEdge e => ({ s with graph := s.graph.insert e }, .done)
  | .removeEdge e => ({ s with graph := s.graph.erase e }, .done)
  | .startDetector => (s.startDetector, .done)
  | .stopDetector => (s.stopDetector, .done)

def perform (w : Walk) (s : Engine) (op : Op) : Engine × Reply :=
  if op.handle?.all s.isUsable then s.carryOut w op else (s, .noSuchTransaction)

end Engine

end TwoPhaseLocking

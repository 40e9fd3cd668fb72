import TwoPhaseLocking.Config
import TwoPhaseLocking.Detector
import TwoPhaseLocking.Error
import TwoPhaseLocking.Queue
import TwoPhaseLocking.Stats
import TwoPhaseLocking.Transaction
import TwoPhaseLocking.WaitGraph

/-! # The state of a lock manager

Everything that lock calls and the deadlock detector share: the queues, the register of
transactions that have asked for locks, the transactions begun here, and the lock calls
asleep on a queue. Transactions are known by handle. Their identifiers need not be
different, and the queues know them by identifier alone.
-/

namespace TwoPhaseLocking

/-- Position of a transaction among all those there have been. -/
abbrev Handle := Nat

/-- A lock call asleep on the queue of its resource. It looks at its queue again only when
it has been notified. -/
structure Sleeper where
  call : Nat
  handle : Handle
  mode : Mode
  resource : Resource
  /-- The mode it gave up to upgrade. -/
  upgradeOf : Option Mode := none
  notified : Bool := false
deriving DecidableEq, Repr, Inhabited

structure Manager where
  config : Config := {}
  stats : Stats := {}
  queues : Std.ExtTreeMap QueueKey Queue compare := ∅
  /-- The transaction to be aborted when an identifier is chosen as a victim. -/
  registry : Std.ExtTreeMap TxnId Handle compare := ∅
  /-- The unfinished transactions among those begun here. -/
  active : Std.ExtTreeMap TxnId Handle compare := ∅
  nextId : TxnId := 0
  /-- The wait-for graph that is edited by hand. A detection pass leaves it empty. -/
  graph : WaitGraph := ∅
  sleepers : List Sleeper := []
  detector : Detector := {}
deriving Inhabited

/-- A lock manager together with the transactions. -/
structure Engine extends Manager where
  txns : Array Transaction := #[]
deriving Inhabited

namespace Engine

def fresh (config : Config) : Engine := { config }

def txn (s : Engine) (h : Handle) : Transaction := s.txns.getD h default

def updateTxn (s : Engine) (h : Handle) (f : Transaction → Transaction) : Engine :=
  { s with txns := s.txns.modify h f }

def queue (s : Engine) (k : QueueKey) : Queue := s.queues.getD k {}

def updateQueue (s : Engine) (k : QueueKey) (f : Queue → Queue) : Engine :=
  { s with queues := s.queues.insert k (f (s.queue k)) }

def tally (s : Engine) (f : Stats → Stats) : Engine :=
  { s with stats := f s.stats }

/-- Whether somebody still refers to the transaction: its client, the list of active
transactions, or a call under way. -/
def isReferred (s : Engine) (h : Handle) : Bool :=
  (s.txn h).kept || s.active[(s.txn h).id]? == some h || s.sleepers.any (·.handle == h)

/-- The registered transaction with this identifier, unless it is gone. -/
def lookup (s : Engine) (id : TxnId) : Option Handle :=
  s.registry[id]?.filter s.isReferred

/-- Registers a transaction under its identifier, unless another one is there and not gone. -/
def register (s : Engine) (h : Handle) : Engine :=
  if (s.lookup (s.txn h).id).isSome then s
  else { s with registry := s.registry.insert (s.txn h).id h }

def grantAndNotify (s : Engine) (k : QueueKey) : Engine :=
  { s.updateQueue k Queue.grant with
    sleepers := s.sleepers.map fun w =>
      if w.resource.key = k then { w with notified := true } else w }

/-- Aborts a transaction for breaking a rule. Its locks stay as they are. -/
def refuse (s : Engine) (h : Handle) (reason : AbortReason) : Engine × LockError :=
  ((s.updateTxn h (·.abort (some reason))).tally Stats.policyAbort,
    .aborted (s.txn h).id reason)

theorem queue_updateQueue (s : Engine) (k k' : QueueKey) (f : Queue → Queue) :
    (s.updateQueue k f).queue k' = if k = k' then f (s.queue k) else s.queue k' := by
  simp [queue, updateQueue, Std.ExtTreeMap.getD_insert]

@[simp]
theorem queue_updateTxn (s : Engine) (h : Handle) (f : Transaction → Transaction)
    (k : QueueKey) : (s.updateTxn h f).queue k = s.queue k := rfl

@[simp]
theorem queue_tally (s : Engine) (f : Stats → Stats) (k : QueueKey) :
    (s.tally f).queue k = s.queue k := rfl

@[simp]
theorem txn_updateQueue (s : Engine) (k : QueueKey) (f : Queue → Queue) (h : Handle) :
    (s.updateQueue k f).txn h = s.txn h := rfl

@[simp]
theorem txn_tally (s : Engine) (f : Stats → Stats) (h : Handle) :
    (s.tally f).txn h = s.txn h := rfl

@[simp]
theorem txn_grantAndNotify (s : Engine) (k : QueueKey) (h : Handle) :
    (s.grantAndNotify k).txn h = s.txn h := rfl

theorem txn_updateTxn (s : Engine) (h h' : Handle) (f : Transaction → Transaction) :
    (s.updateTxn h f).txn h' =
      if h = h' ∧ h < s.txns.size then f (s.txn h) else s.txn h' := by
  simp only [txn, updateTxn, Array.getD_eq_getD_getElem?, Array.getElem?_modify]
  by_cases hh : h = h'
  · subst hh
    by_cases hlt : h < s.txns.size <;> simp [hlt]
  · simp [hh]

theorem txn_updateTxn_self {s : Engine} {h : Handle} {f : Transaction → Transaction}
    (known : h < s.txns.size) : (s.updateTxn h f).txn h = f (s.txn h) :=
  (txn_updateTxn s h h f).trans (if_pos ⟨rfl, known⟩)

theorem txn_updateTxn_of_ne {s : Engine} {h h' : Handle} {f : Transaction → Transaction}
    (other : h' ≠ h) : (s.updateTxn h f).txn h' = s.txn h' :=
  (txn_updateTxn s h h' f).trans (if_neg fun both => other both.1.symm)

theorem queue_grantAndNotify (s : Engine) (k k' : QueueKey) :
    (s.grantAndNotify k).queue k' = if k = k' then (s.queue k).grant else s.queue k' :=
  queue_updateQueue s k k' Queue.grant

end Engine

end TwoPhaseLocking

import TwoPhaseLocking.Engine.Finish
import TwoPhaseLocking.Engine.Wake
import TwoPhaseLocking.WaitGraph.Cycle

/-! # Deadlock detection

A pass builds the wait-for graph from the queues: a waiting request waits for the holders
of all granted requests of its queue. It aborts one victim for each cycle and wakes what
sleeps on their behalf, and with it every call that sleeps although its transaction is
already aborted.
-/

namespace TwoPhaseLocking

namespace Queue

def waiting (q : Queue) : List TxnId :=
  (q.requests.filter (!·.granted)).map (·.txn)

def holding (q : Queue) : List TxnId :=
  (q.requests.filter (·.granted)).map (·.txn)

/-- Who waits for whom in the queue. Nobody waits for himself. -/
def waitEdges (q : Queue) : List Edge :=
  q.waiting.flatMap fun a => (q.holding.filter (· != a)).map fun b => ⟨a, b⟩

end Queue

namespace Engine

def isDoomed (s : Engine) (id : TxnId) : Bool :=
  (s.lookup id).any fun h => (s.txn h).isAborted

def isBlockable (s : Engine) (id : TxnId) : Bool :=
  (s.lookup id).any fun h => !(s.txn h).isAborted

/-- The wait-for graph of these queues. Transactions that are aborted or gone wait for
nobody. -/
def waitGraphOf (s : Engine) (ks : List QueueKey) : WaitGraph :=
  WaitGraph.ofList ((ks.flatMap fun k => (s.queue k).waitEdges).filter (s.isBlockable ·.waiter))

/-- The aborted transactions that still wait in one of these queues, ascending. -/
def strandedIn (s : Engine) (ks : List QueueKey) : List TxnId :=
  (Std.ExtTreeSet.ofList (ks.flatMap fun k => (s.queue k).waiting)).toList.filter s.isDoomed

def waitGraph (w : Walk) (s : Engine) : WaitGraph :=
  s.waitGraphOf (w.queues s)

/-- Aborts a victim, unless it is gone or has committed. -/
def abortVictim (s : Engine) (v : TxnId) : Option Engine :=
  match s.lookup v with
  | none => none
  | some h =>
    if (s.txn h).state = .committed then none
    else some ((s.updateTxn h (·.abort (some .deadlock))).tally Stats.deadlockResolved)

/-- Aborts the victims of a list that can be aborted, or the first of them only, and says
which. -/
def sacrifice (all : Bool) (s : Engine) : List TxnId → Engine × List TxnId
  | [] => (s, [])
  | v :: vs =>
    match s.abortVictim v with
    | none => sacrifice all s vs
    | some s =>
      if all then (sacrifice all s vs).map id (v :: ·)
      else (s, [v])

/-- One pass. Gives the victims in the order in which they were aborted. -/
def detect (w : Walk) (s : Engine) : Engine × List TxnId :=
  let s := s.tally Stats.detectionPass
  let ks := w.queues s
  let stranded := s.strandedIn ks
  let (s, victims) := s.sacrifice s.config.resolveAll (s.waitGraphOf ks).breakCycles.1
  ((stranded ++ victims).foldl (wakePending w) { s with graph := ∅ }, victims)

def startDetector (s : Engine) : Engine :=
  if s.config.enabled then { s with detector := s.detector.start } else s

def stopDetector (s : Engine) : Engine :=
  { s with detector := s.detector.stop }

/-- A pass of the background detector and all that follows from it. -/
def pass (w : Walk) (s : Engine) : Engine × List Completion :=
  (s.detect w).1.settle

def passes (w : Walk) : Nat → Engine → Engine × List Completion
  | 0, s => (s, [])
  | n + 1, s =>
    let ended := s.pass w
    (passes w n ended.1).map id (ended.2 ++ ·)

/-- Lets time go by, with every pass that falls due. -/
def advance (w : Walk) (s : Engine) (ms : Nat) : Engine × List Completion :=
  let ended := s.passes w (s.detector.due s.config.interval ms)
  ({ ended.1 with detector := s.detector.advance s.config.interval ms }, ended.2)

end Engine

end TwoPhaseLocking

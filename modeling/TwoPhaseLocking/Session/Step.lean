import TwoPhaseLocking.Engine.Audit
import TwoPhaseLocking.Engine.Describe
import TwoPhaseLocking.Engine.Operation
import TwoPhaseLocking.Queue.Check
import TwoPhaseLocking.WaitGraph.Cycle

/-! # The steps of a session and what they answer

Besides the operations of a lock manager a step may let time go by, run a batch of locks,
or only ask.
-/

namespace TwoPhaseLocking

/-- What can be done or asked in a step. -/
inductive Step where
  | op (op : Op)
  | lockRowsAndRelease (h : Handle) (table : TableId) (rows : List RowId)
  | advance (ms : Nat)
  | get (id : TxnId)
  | waitGraph
  /-- The youngest transaction on a cycle of the graph edited by hand. -/
  | storedVictim
  | storedEdges
  | isDetecting
  | config
  | stats
  | describe
  | info (h : Handle)
  | query (h : Handle) (table : TableId) (row : Option RowId)
  | audit
deriving Repr

/-- What is known about the locks of a transaction on a table and on one row of it. -/
structure LockInfo where
  tableMode : Option Mode
  hasRows : Bool
  isWaiting : Bool
  /-- The mode held on the row, and whether a request for it waits. -/
  row : Option (Option Mode × Bool)

/-- The outcome of all checks: of table queues, of row queues, and of transactions. -/
structure AuditInfo where
  tables : List (Option QueueFault)
  rows : List (Option QueueFault)
  txns : List (Option String)

inductive Answer where
  | done
  | failed (error : LockError)
  | began (id : TxnId)
  | locked (granted : Bool)
  | unlocked
  | asleep
  | broken
  | victims (ids : List TxnId)
  | edges (es : List Edge)
  | graph (es : List Edge) (cycle : Option (List TxnId)) (victim : Option TxnId)
  | victim (id : Option TxnId)
  | flag (b : Bool)
  | config (c : Config)
  | stats (s : Stats)
  | lines (texts : List String)
  | line (text : String)
  | info (t : Transaction)
  | locks (i : LockInfo)
  | audit (a : AuditInfo)
  | noSuchTransaction

/-- The queues a step speaks of. -/
def Step.mentions : Step → List QueueKey
  | .op (.lock c) => [.table c.resource.tableId, c.resource.key]
  | .op (.unlock _ r _) => [.table r.tableId, r.key]
  | .lockRowsAndRelease _ t rows => .table t :: rows.map .row
  | .query _ t row => .table t :: (row.map QueueKey.row).toList
  | _ => []

/-- Lock calls go by the number of their step. -/
def Op.numbered (n : Nat) : Op → Op
  | .lock c => .lock { c with number := n }
  | op => op

def Answer.ofReply : Reply → Answer
  | .done => done
  | .failed e => failed e
  | .began _ id => began id
  | .locked granted => locked granted
  | .unlocked => unlocked
  | .asleep => asleep
  | .victims ids => victims ids
  | .noSuchTransaction => noSuchTransaction

namespace Engine

/-- What is known about a transaction's locks on a table and perhaps a row. -/
def lockInfo (s : Engine) (h : Handle) (table : TableId) (row : Option RowId) : LockInfo where
  tableMode := (s.txn h).locks.mode? (.table table)
  hasRows := (s.txn h).locks.hasRowsOn table
  isWaiting := (s.txn h).id ∈ (s.queue (.table table)).waiting
  row := row.map fun r =>
    ((s.txn h).locks.mode? (.row table r), decide ((s.txn h).id ∈ (s.queue (.row r)).waiting))

/-- Checks these queues and these transactions. Which of several faults of one transaction
is found first is left open, so only a single lock's fault is named. -/
def audit (s : Engine) (named : List QueueKey) (handles : List Handle) : AuditInfo where
  tables := (named.filter (·.kind == 0)).map fun k => Queue.fault? (s.queue k).requests
  rows := (named.filter (·.kind == 1)).map fun k => Queue.fault? (s.queue k).requests
  txns := handles.map fun h =>
    (s.bookkeepingFault? h).map fun fault =>
      if (s.txn h).locks.size = 1 then fault.text else "violated"

/-- Answers what only asks. Checks go over these queues and transactions. -/
def ask (s : Engine) (named : List QueueKey) (handles : List Handle) : Step → Answer
  | .get id =>
    match s.get id with
    | .ok h => .line (s.txn h).text
    | .error e => .failed e
  | .waitGraph =>
    let g := s.waitGraph .ascending
    .graph g.toList g.findCycle? g.victim?
  | .storedVictim => .victim s.graph.victim?
  | .storedEdges => .edges s.graph.toList
  | .isDetecting => .flag s.detector.isRunning
  | .config => .config s.config
  | .stats => .stats s.stats
  | .describe => .lines [s.lockText, s.txnText]
  | .info h => .info (s.txn h)
  | .query h table row => .locks (s.lockInfo h table row)
  | .audit => .audit (s.audit named handles)
  | .op _ | .lockRowsAndRelease .. | .advance _ => .done

end Engine

end TwoPhaseLocking

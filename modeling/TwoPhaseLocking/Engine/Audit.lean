import TwoPhaseLocking.Policy
import TwoPhaseLocking.Engine

/-! # Checking a transaction's locks against the queues

Each recorded lock should have a granted request of the same mode in its queue, and each
row lock a lock on its table that covers it.
-/

namespace TwoPhaseLocking

inductive BookkeepingFault where
  /-- No granted request stands behind a table lock. -/
  | tableDisagrees (txn : TxnId) (mode : Mode) (table : TableId)
  /-- No granted request stands behind a row lock. -/
  | rowDisagrees (txn : TxnId) (mode : Mode) (row : RowId)
  /-- The table of a row lock is not locked as it should be. -/
  | uncovered (txn : TxnId) (mode : Mode) (row : RowId) (table : TableId)
deriving DecidableEq, Repr

def BookkeepingFault.text : BookkeepingFault → String
  | tableDisagrees txn mode table =>
    s!"{TxnId.text txn} records {mode.text} on {TableId.text table} but queue disagrees"
  | rowDisagrees txn mode row =>
    s!"{TxnId.text txn} records {mode.text} on {row.text} but queue disagrees"
  | uncovered txn mode row table =>
    s!"{TxnId.text txn} holds {mode.text} on {row.text} without a covering lock on {TableId.text table}"

def Queue.grants (q : Queue) (txn : TxnId) (mode : Mode) : Bool :=
  q.requests.any fun r => r.txn == txn && r.mode == mode && r.granted

namespace Engine

def tableFault? (s : Engine) (t : Transaction) (lock : TableId × Mode) :
    Option BookkeepingFault :=
  if (s.queue (.table lock.1)).grants t.id lock.2 then none
  else some (.tableDisagrees t.id lock.2 lock.1)

def rowFault? (s : Engine) (t : Transaction) (lock : TableId × RowId × Mode) :
    Option BookkeepingFault :=
  let (table, row, mode) := lock
  if !(s.queue (.row row)).grants t.id mode then some (.rowDisagrees t.id mode row)
  else if (Policy.tableLockForRow (t.locks.mode? (.table table)) mode).isSome then
    some (.uncovered t.id mode row table)
  else none

/-- The first thing wrong with a transaction's locks, tables before rows. -/
def bookkeepingFault? (s : Engine) (h : Handle) : Option BookkeepingFault :=
  let t := s.txn h
  (t.locks.tables.findSome? (s.tableFault? t)).or (t.locks.rows.findSome? (s.rowFault? t))

end Engine

end TwoPhaseLocking

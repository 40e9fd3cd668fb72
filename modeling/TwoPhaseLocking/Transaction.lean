import TwoPhaseLocking.LockSet
import TwoPhaseLocking.Status

/-! # Transactions -/

namespace TwoPhaseLocking

structure Transaction where
  id : TxnId
  isolation : Isolation
  state : TxnState := .growing
  /-- Why it was last aborted, if a reason was given. -/
  reason : Option AbortReason := none
  locks : LockSet := ∅
  /-- Whether its client still refers to it. One that nobody refers to is gone. -/
  kept : Bool := true
deriving DecidableEq, Inhabited

namespace Transaction

def start (id : TxnId) (isolation : Isolation) : Transaction := { id, isolation }

def isAborted (t : Transaction) : Bool := t.state == .aborted

/-- Marks the transaction aborted, and notes the reason if there is one. Too late once it
has committed. -/
def abort (t : Transaction) (reason : Option AbortReason) : Transaction :=
  if t.state = .committed then t
  else { t with state := .aborted, reason := reason.or t.reason }

def commit (t : Transaction) : Transaction :=
  if t.state.isTerminal then t else { t with state := .committed }

/-- From growing to shrinking. No other state changes. -/
def beginShrinking (t : Transaction) : Transaction :=
  if t.state = .growing then { t with state := .shrinking } else t

def record (t : Transaction) (r : Resource) (m : Mode) : Transaction :=
  { t with locks := t.locks.record r m }

def forget (t : Transaction) (r : Resource) (m : Mode) : Transaction :=
  { t with locks := (t.locks.forget r m).1 }

/-- The locks on tables by table and mode, then those on rows by table, row and mode. -/
def sortedLocks (t : Transaction) : List Lock :=
  let below (a b : Lock) : Bool :=
    ((compare a.resource.tableId b.resource.tableId).then
      ((compare a.page b.page).then (compare a.slot b.slot))).isLE
  let (rows, tables) := t.locks.toList.partition (·.resource.isRow)
  tables.mergeSort below ++ rows.mergeSort below

/-- For instance `1 Aborted (Deadlock) 2:X`. -/
def text (t : Transaction) : String :=
  let reason := t.reason.elim [] fun r => [s!"({r.name})"]
  " ".intercalate ([toString t.id, t.state.name] ++ reason ++ t.sortedLocks.map (·.text))

@[simp]
theorem isAborted_iff {t : Transaction} : t.isAborted = true ↔ t.state = .aborted := by
  simp [isAborted]

@[simp]
theorem id_abort (t : Transaction) (r : Option AbortReason) : (t.abort r).id = t.id := by
  unfold abort
  split <;> rfl

@[simp]
theorem kept_abort (t : Transaction) (r : Option AbortReason) : (t.abort r).kept = t.kept := by
  unfold abort
  split <;> rfl

@[simp]
theorem locks_abort (t : Transaction) (r : Option AbortReason) : (t.abort r).locks = t.locks := by
  unfold abort
  split <;> rfl

@[simp]
theorem id_commit (t : Transaction) : t.commit.id = t.id := by
  unfold commit
  split <;> rfl

@[simp]
theorem locks_commit (t : Transaction) : t.commit.locks = t.locks := by
  unfold commit
  split <;> rfl

@[simp]
theorem id_beginShrinking (t : Transaction) : t.beginShrinking.id = t.id := by
  unfold beginShrinking
  split <;> rfl

@[simp]
theorem locks_beginShrinking (t : Transaction) : t.beginShrinking.locks = t.locks := by
  unfold beginShrinking
  split <;> rfl

theorem state_abort (t : Transaction) (r : Option AbortReason) :
    (t.abort r).state = if t.state = .committed then .committed else .aborted := by
  unfold abort
  split <;> simp_all

end Transaction

end TwoPhaseLocking

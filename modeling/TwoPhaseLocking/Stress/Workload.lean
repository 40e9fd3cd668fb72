import TwoPhaseLocking.Stress.Config
import TwoPhaseLocking.Engine.Operation

/-! # Stress workloads

Workers run many short transactions against one lock manager. While a transaction holds a
lock it is counted among the holders of the resource, and a worker that finds itself there
together with somebody it should exclude has failed. A run moves one worker by one step at
a time. Which worker, and which tables and rows it picks, is open.
-/

namespace TwoPhaseLocking.Stress

inductive Workload where
  /-- Each transaction locks one table, every third exclusively, the others shared. -/
  | tables
  /-- Each transaction locks several rows of one table exclusively. -/
  | rows
deriving DecidableEq, Repr

/-- What a transaction picks at random: a table, and all rows of it in some order. -/
structure Choice where
  table : TableId
  slots : List Nat
deriving DecidableEq, Repr

/-- A lock to be taken, and whether its holders are counted. -/
structure Goal where
  lock : Lock
  counted : Bool
deriving DecidableEq, Repr

/-- The locks that a worker's transaction number `i` takes, in order. -/
def Workload.goals (w : Workload) (c : Config) (i : Nat) (pick : Choice) : List Goal :=
  match w with
  | .tables =>
    [⟨⟨.table pick.table, if i % 3 = 0 then .exclusive else .shared⟩, true⟩]
  | .rows =>
    ⟨⟨.table pick.table, .intentionExclusive⟩, false⟩ ::
      (pick.slots.take (max 1 c.rowsPerTxn)).map fun slot =>
        ⟨⟨.row pick.table ⟨pick.table, slot⟩, .exclusive⟩, true⟩

structure Holders where
  readers : Nat := 0
  writers : Nat := 0
deriving DecidableEq, Repr, Inhabited

namespace Holders

def enter (n : Holders) (m : Mode) : Holders :=
  if m = .exclusive then { n with writers := n.writers + 1 }
  else { n with readers := n.readers + 1 }

def exit (n : Holders) (m : Mode) : Holders :=
  if m = .exclusive then { n with writers := n.writers - 1 }
  else { n with readers := n.readers - 1 }

/-- Whether somebody who has just been counted in should not be there, when so many writers
had been counted before. -/
def clash (n : Holders) (m : Mode) (writersBefore : Nat) : Bool :=
  if m = .exclusive then writersBefore != 0 || n.readers != 0 else n.writers != 0

end Holders

/-- Where a worker is in its present transaction. `held` are the counted locks it has. -/
inductive Phase where
  | between
  /-- About to take the next lock, or to leave if there is none. -/
  | locking (h : Handle) (todo : List Goal) (held : List Lock)
  | waiting (h : Handle) (goal : Goal) (todo : List Goal) (held : List Lock)
  /-- Has the lock, but has not been counted in. -/
  | entering (h : Handle) (lock : Lock) (todo : List Goal) (held : List Lock)
  /-- Counted in, but has not looked who else is there. -/
  | looking (h : Handle) (lock : Lock) (writersBefore : Nat) (todo : List Goal) (held : List Lock)
  /-- About to be counted out of the locks held, and then to commit or to abort. -/
  | leaving (h : Handle) (held : List Lock) (commit : Bool)
  /-- Came upon something that must not happen. -/
  | crashed
deriving DecidableEq, Repr

structure Worker where
  made : Nat := 0
  phase : Phase := .between
deriving DecidableEq, Repr, Inhabited

/-- A stress run at some moment. -/
structure Run where
  engine : Engine
  holders : Std.ExtTreeMap QueueKey Holders compare := ∅
  workers : List Worker
  successful : Nat := 0
  failed : Nat := 0

namespace Run

def start (c : Config) (manager : TwoPhaseLocking.Config) : Run where
  engine := Engine.fresh manager
  workers := List.replicate c.workers {}

def count (x : Run) (k : QueueKey) : Holders := x.holders.getD k {}

def setPhase (x : Run) (t : Nat) (p : Phase) : Run :=
  { x with workers := x.workers.modify t fun w => { w with phase := p } }

def endTxn (x : Run) (t : Nat) (success : Bool) : Run :=
  { x with
    workers := x.workers.modify t fun w => { made := w.made + 1, phase := .between }
    successful := if success then x.successful + 1 else x.successful
    failed := if success then x.failed else x.failed + 1 }

def returned (x : Run) (t : Nat) (granted : Bool) (h : Handle) (goal : Goal)
    (todo : List Goal) (held : List Lock) : Run :=
  if !granted then x.setPhase t (.leaving h held false)
  else if goal.counted then x.setPhase t (.entering h goal.lock todo held)
  else x.setPhase t (.locking h todo held)

/-- A worker's lock call has failed. A transaction that was aborted before it could lock a
row gives up. Nothing else may fail. -/
def lockFailed (x : Run) (t : Nat) (e : LockError) (h : Handle) (goal : Goal)
    (held : List Lock) : Run :=
  match e with
  | .notActive .. =>
    if goal.lock.resource.isRow then x.setPhase t (.leaving h held false)
    else x.setPhase t .crashed
  | _ => x.setPhase t .crashed

def giveUp (x : Run) (t : Nat) (h : Handle) : Run :=
  let (s, outcome) := x.engine.abort .ascending h
  let x := { x with engine := s.letGo h }
  match outcome with
  | .done => x.endTxn t false
  | .failed _ => x.setPhase t .crashed

/-- Moves a worker by one step, with `pick` should it begin a transaction. -/
def step (w : Workload) (c : Config) (x : Run) (t : Nat) (pick : Choice) : Run :=
  match x.workers[t]? with
  | none => x
  | some worker =>
    match worker.phase with
    | .between =>
      if worker.made < c.share then
        let h := x.engine.txns.size
        let goals := w.goals c (t * c.share + worker.made) pick
        { x with engine := x.engine.begin .repeatableRead }.setPhase t (.locking h goals [])
      else x
    | .locking h [] held => x.setPhase t (.leaving h held true)
    | .locking h (goal :: todo) held =>
      let (s, reply) := x.engine.lock
        { number := t, handle := h, mode := goal.lock.mode, resource := goal.lock.resource }
      let x := { x with engine := s }
      match reply with
      | .returned granted => x.returned t granted h goal todo held
      | .failed e => x.lockFailed t e h goal held
      | .asleep => x.setPhase t (.waiting h goal todo held)
    | .waiting h goal todo held =>
      let (s, ended) := x.engine.wake t
      let x := { x with engine := s }
      match ended with
      | none => x
      | some done => x.returned t done.granted h goal todo held
    | .entering h lock todo held =>
      let n := x.count lock.resource.key
      { x with holders := x.holders.insert lock.resource.key (n.enter lock.mode) }.setPhase t
        (.looking h lock n.writers todo held)
    | .looking h lock writersBefore todo held =>
      if (x.count lock.resource.key).clash lock.mode writersBefore then x.setPhase t .crashed
      else x.setPhase t (.locking h todo (held ++ [lock]))
    | .leaving h (lock :: held) commit =>
      let n := x.count lock.resource.key
      { x with holders := x.holders.insert lock.resource.key (n.exit lock.mode) }.setPhase t
        (.leaving h held commit)
    | .leaving h [] true =>
      let (s, outcome) := x.engine.commit .ascending h
      match outcome with
      | .done => { x with engine := s.letGo h }.endTxn t true
      | .failed (.notActive ..) => { x with engine := s }.setPhase t (.leaving h [] false)
      | .failed _ => { x with engine := s }.setPhase t .crashed
    | .leaving h [] false => x.giveUp t h
    | .crashed => x

def isOver (c : Config) (x : Run) : Bool :=
  x.workers.all fun worker => worker.made == c.share

def turn (w : Workload) (c : Config) (x : Run) : Run :=
  (List.range c.workers).foldl
    (fun x t =>
      let made := (x.workers[t]?.elim 0 (·.made)) + t
      x.step w c t
        { table := made % c.tableCount
          slots := (List.range c.rowCount).rotateLeft (made % c.rowCount) })
    x

/-- So many turns, or as many as it takes. -/
def turns (w : Workload) (c : Config) : Nat → Run → Run
  | 0, x => x
  | n + 1, x => if x.isOver c then x else turns w c n (x.turn w c)

/-- Turns in which the whole run is done: one worker at least makes a step in each. -/
def turnsNeeded (c : Config) : Nat :=
  c.workers * c.share * (4 * (c.batchSize + 1) + 4) + 1

/-- A run from start to end in which the workers take turns. -/
def complete (w : Workload) (c : Config) : Run :=
  (start c {}).turns w c (turnsNeeded c)

end Run

end TwoPhaseLocking.Stress

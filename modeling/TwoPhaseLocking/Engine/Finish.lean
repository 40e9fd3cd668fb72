import TwoPhaseLocking.Engine.Unlock

/-! # Beginning, committing and aborting

Both ways to end a transaction give back all its locks, rows before tables. Aborting first
wakes the calls that the transaction has asleep. Which queue or lock comes first where
several are walked through is given by a `Walk`.
-/

namespace TwoPhaseLocking

/-- An order in which to visit all queues, and one in which to give back the locks of a
transaction. -/
structure Walk where
  queues : Engine → List QueueKey
  locks : Engine → Handle → List Resource

def Walk.ascending : Walk where
  queues s := s.queues.keys
  locks s h := (s.txn h).locks.toList.map (·.resource)

/-- Every queue is visited once, and every lock given back once, rows before tables. -/
structure Walk.Complete (w : Walk) : Prop where
  queues : ∀ s, (w.queues s).Perm s.queues.keys
  locks : ∀ s h, (w.locks s h).Perm ((s.txn h).locks.toList.map (·.resource))
  rowsFirst : ∀ s h, (w.locks s h).Pairwise fun a b => a.isTable = true → b.isTable = true

theorem Walk.complete_ascending : Walk.ascending.Complete where
  queues _ := .refl _
  locks _ _ := .refl _
  rowsFirst s h := List.pairwise_map.2 <| (s.txn h).locks.toList_kinds.imp fun {a b} le ha => by
    cases ra : a.resource <;> cases rb : b.resource <;>
      simp_all [Lock.kind, Resource.isRow, Resource.isTable]

namespace Engine

def begin (s : Engine) (isolation : Isolation) : Engine :=
  { s with
    txns := s.txns.push (Transaction.start s.nextId isolation)
    active := s.active.insert s.nextId s.txns.size
    nextId := (s.nextId + 1) % UInt64.size }

/-- Adds a transaction that is not among the active ones, under any identifier. -/
def adopt (s : Engine) (id : TxnId) (isolation : Isolation) : Engine :=
  { s with txns := s.txns.push (Transaction.start id isolation) }

def letGo (s : Engine) (h : Handle) : Engine :=
  s.updateTxn h fun t => { t with kept := false }

def get (s : Engine) (id : TxnId) : Except LockError Handle :=
  match s.active[id]? with
  | some h => .ok h
  | none => .error (.unknown id)

def unregister (s : Engine) (id : TxnId) : Engine :=
  { s with registry := s.registry.erase id }

/-- Looks through each of these queues in which the identifier has a request. -/
def wakeIn (s : Engine) (ks : List QueueKey) (id : TxnId) : Engine :=
  ks.foldl (fun s k => if (s.queue k).has id then s.grantAndNotify k else s) s

/-- Wakes the calls of a transaction wherever they may be asleep. -/
def wakePending (w : Walk) (s : Engine) (id : TxnId) : Engine :=
  s.wakeIn (w.queues s) id

/-- Gives back these locks one after the other, up to the first that fails. Others may do
`pause n` when `n` of them are still to be given back. -/
def releaseEach (pause : Nat → Engine → Engine) (s : Engine) (h : Handle) :
    List Resource → Engine × Outcome
  | [] => (pause 0 s, .done)
  | r :: rs =>
    match (pause (rs.length + 1) s).unlock h r true with
    | (s, .done) => releaseEach pause s h rs
    | (s, .failed e) => (s, .failed e)

def releaseAll (w : Walk) (s : Engine) (h : Handle) : Engine × Outcome :=
  releaseEach (fun _ s => s) s h (w.locks s h)

def abortAndWake (w : Walk) (s : Engine) (h : Handle) : Engine :=
  (s.updateTxn h (·.abort none)).wakePending w (s.txn h).id

/-- Strikes an ended transaction from the active ones and from the register. -/
def retire (s : Engine) (id : TxnId) : Engine :=
  { s.unregister id with active := s.active.erase id }

/-- The points of a commit at which it holds on to nothing. -/
inductive CommitGap where
  | checked
  /-- This many locks are still to be given back. -/
  | releasing (left : Nat)
  | committed
deriving DecidableEq, Repr

/-- A commit with `pause g` done by others at each gap `g`. An abort that comes before the
transaction is marked committed wins. -/
def commitWith (pause : CommitGap → Engine → Engine) (w : Walk) (s : Engine) (h : Handle) :
    Engine × Outcome :=
  let t := s.txn h
  if t.state.isTerminal then
    (s, .failed (.notActive t.id t.state))
  else
    let s := pause .checked s
    match releaseEach (fun n => pause (.releasing n)) s h (w.locks s h) with
    | (s, .failed e) => (s, .failed e)
    | (s, .done) =>
      if (s.txn h).state.isTerminal then
        (s, .failed (.notActive t.id (s.txn h).state))
      else
        ((pause .committed (s.updateTxn h (·.commit))).retire t.id, .done)

def commit (w : Walk) (s : Engine) (h : Handle) : Engine × Outcome :=
  commitWith (fun _ s => s) w s h

/-- Aborts a transaction, whatever its state but committed, and gives back its locks. -/
def abort (w : Walk) (s : Engine) (h : Handle) : Engine × Outcome :=
  let t := s.txn h
  if t.state = .committed then
    (s, .failed (.notActive t.id t.state))
  else
    match (s.abortAndWake w h).releaseAll w h with
    | (s, .failed e) => (s, .failed e)
    | (s, .done) => (s.retire t.id, .done)

end Engine

end TwoPhaseLocking

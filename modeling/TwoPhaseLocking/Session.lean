import TwoPhaseLocking.Engine.Batch
import TwoPhaseLocking.Session.Step
import TwoPhaseLocking.Session.View

/-! # Sessions

A session puts one or more lock managers through a list of steps. The transactions belong
to all of them, and time goes by for all of them. After each step every call that was
notified looks at its queue, so that between steps each call has returned or sleeps.
-/

namespace TwoPhaseLocking

structure StepReport where
  answer : Answer
  /-- Earlier calls that returned during the step, by step number. -/
  ended : List (Nat × Answer)
  view : SessionView

structure Session where
  managers : Array Manager
  txns : Array Transaction := #[]
  batches : List Batch := []
  named : Std.ExtTreeSet QueueKey compare := ∅
  steps : Nat := 0

namespace Engine

/-- Hands an ended call to the program that slept in it, which goes on until it sleeps again
or ends. A call that belongs to no program ends by itself. -/
def resume (s : Engine) (bs : List Batch) (c : Completion) :
    Engine × List Batch × List (Nat × Answer) :=
  match bs.find? (·.number == c.call) with
  | none => (s, bs, [(c.call, .locked c.granted)])
  | some b =>
    let others := bs.erase b
    match s.runBatch .ascending b.number b.handle b.rest with
    | (s, .finished) => (s, others, [(b.number, .done)])
    | (s, .broken) => (s, others, [(b.number, .broken)])
    | (s, .asleep b) => (s, others ++ [b], [])

def resumeEach (s : Engine) (bs : List Batch) :
    List Completion → Engine × List Batch × List (Nat × Answer)
  | [] => (s, bs, [])
  | c :: cs =>
    let (s, bs, ends) := s.resume bs c
    let (s, bs, more) := s.resumeEach bs cs
    (s, bs, ends ++ more)

/-- Hands over ended calls, lets those that this has notified look at their queues, and so
on until no further call ends. Gives what has ended, by number. -/
def follow : (rounds : Nat) → Engine → List Batch → List Completion →
    Engine × List Batch × List (Nat × Answer)
  | 0, s, bs, _ => (s, bs, [])
  | _ + 1, s, bs, [] => (s, bs, [])
  | rounds + 1, s, bs, cs =>
    let (s, bs, ends) := s.resumeEach bs cs
    let (s, cs) := s.settle
    let (s, bs, more) := follow rounds s bs cs
    (s, bs, ends ++ more)

/-- Rounds after which no program can be left to go on. In each round but the last two some
program ends or takes up one more of its locks. -/
def followRounds (bs : List Batch) : Nat :=
  bs.foldl (fun n b => n + b.rest.length + 1) 2

end Engine

namespace Session

def start (managers : Array Manager) : Session := { managers }

/-- Whether a lock manager other than the given one refers to a transaction. -/
def isReferredElsewhere (x : Session) (i : Nat) (h : Handle) (t : Transaction) : Bool :=
  (List.range x.managers.size).any fun j =>
    j != i && x.managers[j]?.any fun m => m.active[t.id]? == some h || m.sleepers.any (·.handle == h)

def keptHandles (x : Session) : List Handle :=
  (List.range x.txns.size).filter fun h => x.txns[h]?.any (·.kept)

/-- One lock manager with the transactions. Those that another one refers to count as kept. -/
def focus (x : Session) (i : Nat) : Engine where
  toManager := x.managers.getD i default
  txns := x.txns.mapIdx fun h t => { t with kept := t.kept || x.isReferredElsewhere i h t }

/-- The session after something was done with one lock manager. -/
def replace (x : Session) (i : Nat) (s : Engine) : Session :=
  { x with
    managers := x.managers.setIfInBounds i s.toManager
    txns := s.txns.mapIdx fun h t =>
      { t with kept := t.kept && x.txns[h]?.all (·.kept) } }

/-- Lets everything that follows from the ended calls happen. -/
def replaceAndFollow (x : Session) (i : Nat) (s : Engine) (cs : List Completion) :
    Session × List (Nat × Answer) :=
  let (s, bs, ends) := s.follow (Engine.followRounds x.batches) x.batches cs
  ({ x.replace i s with batches := bs }, ends)

/-- Lets time go by for all lock managers, up to what may be one pass of each. -/
def tick (x : Session) (ms : Nat) : Session × List (Nat × Answer) :=
  (List.range x.managers.size).foldl
    (fun (x, ends) i =>
      let (s, cs) := (x.focus i).advance .ascending ms
      let (x, more) := x.replaceAndFollow i s cs
      (x, ends ++ more))
    (x, [])

/-- How long until some background detector makes its next pass. -/
def untilPass? (x : Session) : Option Nat :=
  (x.managers.toList.filterMap fun m =>
    if m.config.interval = 0 then none else m.detector.untilPass? m.config.interval).min?

/-- Lets time go by from pass to pass. -/
def advanceWithin : (passes : Nat) → Session → (ms : Nat) → Session × List (Nat × Answer)
  | 0, x, ms => x.tick ms
  | passes + 1, x, ms =>
    match x.untilPass?.filter (· ≤ ms) with
    | none => x.tick ms
    | some d =>
      let ticked := x.tick d
      (advanceWithin passes ticked.1 (ms - d)).map id (ticked.2 ++ ·)

def advance (x : Session) (ms : Nat) : Session × List (Nat × Answer) :=
  let due := x.managers.foldl (fun n m => n + m.detector.due m.config.interval ms) 0
  x.advanceWithin due ms

/-- Makes a step with one lock manager. The answer is the operation's own, before anything
follows from it. -/
def make (x : Session) (i : Nat) (step : Step) : Session × Answer × List (Nat × Answer) :=
  let s := x.focus i
  match step with
  | .advance ms =>
    let (x, ends) := x.advance ms
    (x, .done, ends)
  | .lockRowsAndRelease h table rows =>
    let (s, reply) := s.lockRowsAndRelease .ascending x.steps h table rows
    let (x, answer) : Session × Answer := match reply with
      | .finished => (x, .done)
      | .broken => (x, .broken)
      | .asleep b => ({ x with batches := x.batches ++ [b] }, .asleep)
    let (s, cs) := s.settle
    let (x, ends) := x.replaceAndFollow i s cs
    (x, answer, ends)
  | .op op =>
    let (s, reply) := s.perform .ascending (op.numbered x.steps)
    let answer := match op with
      | .addEdge _ | .removeEdge _ => .edges s.graph.toList
      | _ => .ofReply reply
    let (s, cs) := s.settle
    let (x, ends) := x.replaceAndFollow i s cs
    (x, answer, ends)
  | step => (x, s.ask x.named.toList x.keptHandles step, [])

def view (x : Session) : SessionView where
  managers := x.managers.toList.map ManagerView.of
  txns := x.txns.toList.map fun t => if t.kept then t.text else "dropped"

/-- Makes a step and reports on it. A call that slept and returned within its own step
answers what it returned. -/
def step (x : Session) (i : Nat) (step : Step) : Session × StepReport :=
  let n := x.steps
  let (x, answer, ends) := { x with named := x.named.insertMany step.mentions }.make i step
  let own := ends.find? (·.1 == n)
  let earlier := ends.filter (·.1 != n)
  let x := { x with steps := n + 1 }
  (x, {
    answer := own.elim answer (·.2)
    ended := earlier.mergeSort fun a b => a.1 ≤ b.1
    view := x.view })

def run (x : Session) : List (Nat × Step) → Session × List StepReport
  | [] => (x, [])
  | (i, s) :: rest =>
    let made := x.step i s
    (run made.1 rest).map id (made.2 :: ·)

def blocked (x : Session) : List Nat :=
  (x.managers.toList.flatMap fun m => m.sleepers.map (·.call)).mergeSort

end Session

end TwoPhaseLocking

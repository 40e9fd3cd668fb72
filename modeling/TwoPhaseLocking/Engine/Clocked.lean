import TwoPhaseLocking.Detector.Thread
import TwoPhaseLocking.Engine.Detect

/-! # A lock manager and the thread of its detector

Time goes by only while the thread waits. An action on the detector lets the thread run until
it can go no further before more time goes by, and stopping it takes until it has ended.
`Engine.undergo` is what the same actions come to when the passes due are counted instead.
-/

namespace TwoPhaseLocking

/-- A lock manager with the thread of its detector, if there is one. The detector of the engine
itself is not used. -/
structure Clocked where
  engine : Engine
  now : Nat
  thread : Option Detector.Thread
  /-- When passes were made. -/
  passed : List Nat
  /-- The calls that returned because of passes. -/
  ended : List Completion

namespace Clocked

open Detector (Action Thread)

/-- What happens next, up to a limit in time: the thread makes its move, or its wait is over. -/
def next? (w : Walk) (limit : Nat) (c : Clocked) : Option Clocked :=
  c.thread.bind fun t =>
    match t.next? c.now, t.stage with
    | some t', .passing =>
      let (s, ended) := c.engine.pass w
      some { c with
        engine := s
        thread := some t'
        passed := c.passed ++ [c.now]
        ended := c.ended ++ ended }
    | some t', _ => some { c with thread := some t' }
    | none, .waiting till => if till ≤ limit then some { c with now := till } else none
    | none, _ => none

/-- Lets the thread run until nothing more happens up to the limit. -/
inductive RunsTo (w : Walk) (limit : Nat) : Clocked → Clocked → Prop where
  | rest {c} : c.next? w limit = none → RunsTo w limit c c
  | step {c c' c''} : c.next? w limit = some c' → RunsTo w limit c' c'' → RunsTo w limit c c''

/-- Spawns the thread, unless it is there already or may not be started. -/
def spawn (c : Clocked) : Clocked :=
  if c.engine.config.enabled && c.thread.isNone then
    { c with thread := some { interval := c.engine.config.interval } }
  else c

/-- Tells the thread to stop. -/
def signal (c : Clocked) : Clocked :=
  { c with thread := c.thread.map fun t => { t with stopped := true } }

/-- There is no thread to wait for. -/
def isJoinable (c : Clocked) : Bool :=
  c.thread.all (·.stage == .ended)

inductive Takes (w : Walk) : Clocked → Action → Clocked → Prop where
  | start {c c'} : RunsTo w c.now c.spawn c' → Takes w c .start c'
  | stop {c c'} : RunsTo w c.now c.signal c' → c'.isJoinable = true →
      Takes w c .stop { c' with thread := none }
  | advance {c c' ms} : RunsTo w (c.now + ms) c c' →
      Takes w c (.advance ms) { c' with now := c.now + ms }

inductive TakesAll (w : Walk) : Clocked → List Action → Clocked → Prop where
  | nil {c} : TakesAll w c [] c
  | cons {c c' c'' a as} : Takes w c a c' → TakesAll w c' as c'' → TakesAll w c (a :: as) c''

end Clocked

namespace Engine

open Detector (Action)

/-- Carries out an action on the detector. Gives the calls that returned because of it. -/
def undergo (w : Walk) (s : Engine) : Action → Engine × List Completion
  | .start => (s.startDetector, [])
  | .stop => (s.stopDetector, [])
  | .advance ms => s.advance w ms

def undergoAll (w : Walk) (s : Engine) : List Action → Engine × List Completion
  | [] => (s, [])
  | a :: as =>
    let made := s.undergo w a
    (undergoAll w made.1 as).map id (made.2 ++ ·)

/-- The same state at another time. -/
def timed (s : Engine) (d : Detector) : Engine := { s with detector := d }

/-- The engine with a thread that waits for its next pass if the detector is running. -/
def clocked (s : Engine) (passed : List Nat) (ended : List Completion) : Clocked where
  engine := s.timed {}
  now := s.detector.now
  thread := s.detector.since.map fun t =>
    { interval := s.config.interval, stage := .waiting (t + s.config.interval) }
  passed
  ended

end Engine

end TwoPhaseLocking

import TwoPhaseLocking.Detector

/-! # The thread of the background detector

The thread looks at its stop flag, waits out the interval unless it is told to stop, looks at
the flag again, and only then makes a pass. Nothing takes time but the wait. Between a look at
the flag and the wait, and between the wait and the next look, nobody else can set the flag.
-/

namespace TwoPhaseLocking

namespace Detector

/-- What can be done to a detector, and the time that goes by in between. -/
inductive Action where
  | start
  | stop
  | advance (ms : Nat)
deriving DecidableEq, Repr

/-- How far the thread has come in its loop. -/
inductive Stage where
  /-- About to wait, unless it has been told to stop. -/
  | looping
  | waiting (till : Nat)
  /-- About to make a pass, unless it has been told to stop. -/
  | awake
  | passing
  | ended
deriving DecidableEq, Repr

structure Thread where
  interval : Nat
  stage : Stage := .looping
  stopped : Bool := false
deriving DecidableEq, Repr

/-- The next move of the thread, unless it waits or has ended. -/
def Thread.next? (now : Nat) (t : Thread) : Option Thread :=
  match t.stage with
  | .looping =>
    some { t with stage := if t.stopped then .awake else .waiting (now + t.interval) }
  | .waiting till => if t.stopped || till ≤ now then some { t with stage := .awake } else none
  | .awake => some { t with stage := if t.stopped then .ended else .passing }
  | .passing => some { t with stage := .looping }
  | .ended => none

end Detector

end TwoPhaseLocking

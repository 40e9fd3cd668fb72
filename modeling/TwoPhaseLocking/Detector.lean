/-! # The clock of the background detector

A running detector waits for its interval, makes a pass, and waits again. Passes take no
time, so they fall due at whole multiples of the interval after the start.
-/

namespace TwoPhaseLocking

/-- Times are in milliseconds. -/
structure Detector where
  now : Nat := 0
  /-- When the running detector began its present wait. -/
  since : Option Nat := none
deriving DecidableEq, Repr, Inhabited

namespace Detector

def isRunning (d : Detector) : Bool := d.since.isSome

/-- A detector already running goes on as before. -/
def start (d : Detector) : Detector :=
  { d with since := d.since.or (some d.now) }

def stop (d : Detector) : Detector :=
  { d with since := none }

/-- How many passes fall due in the next `ms`, the end included. -/
def due (d : Detector) (interval ms : Nat) : Nat :=
  match d.since with
  | none => 0
  | some t => (d.now + ms - t) / interval

/-- How long until the next pass. -/
def untilPass? (d : Detector) (interval : Nat) : Option Nat :=
  d.since.map fun t => t + interval - d.now

/-- The clock `ms` later, each pass due having begun a new wait. -/
def advance (d : Detector) (interval ms : Nat) : Detector where
  now := d.now + ms
  since := d.since.map fun t => t + d.due interval ms * interval

end Detector

end TwoPhaseLocking

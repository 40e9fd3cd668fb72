import TwoPhaseLocking.Engine.Lock

/-! # Waking sleeping calls

A sleeping call that has been notified looks at its queue again. If its request is granted
or its transaction aborted it returns, which may notify others. Otherwise it goes back to
sleep. `settle` lets all of them look until nobody is left who has been notified.
-/

namespace TwoPhaseLocking

/-- A call that slept, by number, and what it returned. -/
structure Completion where
  call : Nat
  granted : Bool
deriving DecidableEq, Repr, Inhabited

def Sleeper.lockCall (w : Sleeper) : LockCall :=
  { number := w.call, handle := w.handle, mode := w.mode, resource := w.resource }

namespace Engine

def isReady (s : Engine) (w : Sleeper) : Bool :=
  (s.queue w.resource.key).isGranted (s.txn w.handle).id || (s.txn w.handle).isAborted

/-- Nobody has been notified without having looked since. -/
def isQuiet (s : Engine) : Bool :=
  s.sleepers.all (!·.notified)

def finishSleeper (s : Engine) (w : Sleeper) : Engine × Completion :=
  ({ s with sleepers := s.sleepers.erase w }.conclude w.lockCall).map id fun granted =>
    { call := w.call, granted }

/-- Lets the notified call with this number look at its queue. -/
def wake (s : Engine) (call : Nat) : Engine × Option Completion :=
  match s.sleepers.find? fun w => w.call == call && w.notified with
  | none => (s, none)
  | some w =>
    if s.isReady w then
      (s.finishSleeper w).map id some
    else
      ({ s with sleepers := s.sleepers.replace w { w with notified := false } }, none)

/-- Everybody who has been notified goes back to sleep. -/
def doze (s : Engine) : Engine :=
  { s with sleepers := s.sleepers.map fun w => { w with notified := false } }

/-- Ends up to `n` calls, each the first that is notified and ready at its time. The
remaining ones go back to sleep. -/
def settleWithin : (n : Nat) → Engine → Engine × List Completion
  | 0, s => (s.doze, [])
  | n + 1, s =>
    match s.sleepers.find? fun w => w.notified && s.isReady w with
    | none => (s.doze, [])
    | some w =>
      let ended := s.finishSleeper w
      (settleWithin n ended.1).map id (ended.2 :: ·)

/-- Lets notified calls look at their queues until nobody is left to look. -/
def settle (s : Engine) : Engine × List Completion :=
  settleWithin s.sleepers.length s

end Engine

end TwoPhaseLocking

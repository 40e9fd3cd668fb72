import TwoPhaseLocking.Engine

/-! # A lock manager and its transactions in one line each -/

namespace TwoPhaseLocking

/-- A span of time: `0ns`, so many `ms` below one second, and from there seconds with the
thousandths that are needed. -/
def durationText (ms : Nat) : String :=
  if ms = 0 then "0ns"
  else if ms < 1000 then s!"{ms}ms"
  else
    let thousandths := toString (ms % 1000)
    let padded := "".pushn '0' (3 - thousandths.length) ++ thousandths
    let fraction := (padded.toList.reverse.dropWhile (· == '0')).reverse
    if fraction.isEmpty then s!"{ms / 1000}s"
    else s!"{ms / 1000}." ++ String.ofList fraction ++ "s"

def recordText (name : String) (fields : List (String × String)) : String :=
  name ++ " \x7b " ++ ", ".intercalate (fields.map fun f => f.1 ++ ": " ++ f.2) ++ " \x7d"

def Config.text (c : Config) : String :=
  recordText "LockManagerConfig"
    [("cycle_detection_interval", durationText c.interval),
      ("enable_cycle_detection", toString c.enabled),
      ("resolve_all_cycles", toString c.resolveAll)]

namespace Engine

def tableCount (s : Engine) : Nat :=
  (s.queues.keys.filter fun k => k.kind == 0).length

def rowCount (s : Engine) : Nat :=
  (s.queues.keys.filter fun k => k.kind == 1).length

def lockText (s : Engine) : String :=
  recordText "LockManager"
    [("config", s.config.text), ("tables", toString s.tableCount),
      ("rows", toString s.rowCount), ("detecting", toString s.detector.isRunning)]

def txnText (s : Engine) : String :=
  recordText "TransactionManager"
    [("next_txn_id", toString s.nextId), ("active", toString s.active.size)]

end Engine

end TwoPhaseLocking

/-! # Sizes of stress runs and of randomised checks -/

namespace TwoPhaseLocking.Stress

/-- How much work a stress run does. Every size counts as one at least, but for the number
of transactions. -/
structure Config where
  operations : Nat := 2000
  threads : Nat := 4
  tables : Nat := 2
  rowsPerTable : Nat := 8
  rowsPerTxn : Nat := 2
deriving DecidableEq, Repr, Inhabited

namespace Config

def workers (c : Config) : Nat := max 1 c.threads

/-- Transactions of each worker. What cannot be shared out evenly is left out. -/
def share (c : Config) : Nat := c.operations / c.workers

def tableCount (c : Config) : Nat := max 1 c.tables

def rowCount (c : Config) : Nat := max 1 c.rowsPerTable

def batchSize (c : Config) : Nat := min (max 1 c.rowsPerTxn) c.rowCount

end Config

/-- How hard a randomised check tries. -/
structure Effort where
  cases : Nat
  /-- Steps spent on making a failing case smaller. -/
  shrinkSteps : Nat
deriving DecidableEq, Repr

namespace Effort

def default : Effort := { cases := 256, shrinkSteps := 1000 }

def quick : Effort := { cases := 32, shrinkSteps := 100 }

def thorough : Effort := { cases := 1024, shrinkSteps := 10000 }

end Effort

/-- What came of a stress run that took `nanos` nanoseconds. -/
structure Summary where
  successful : Nat
  failed : Nat
  nanos : Nat
deriving DecidableEq, Repr

namespace Summary

def total (s : Summary) : Nat := s.successful + s.failed

/-- The duration in seconds: whole seconds and the fraction, each rounded, then added. -/
def seconds (s : Summary) : Float :=
  (s.nanos / 1000000000).toUInt64.toFloat + (s.nanos % 1000000000).toUInt64.toFloat / 1e9

def perSecond (s : Summary) : Float :=
  if s.seconds > 0 then s.total.toUInt64.toFloat / s.seconds else 0

end Summary

/-- The bits of a floating-point number in sixteen hexadecimal digits. -/
def bitsText (x : Float) : String :=
  let digits := Nat.toDigits 16 x.toBits.toNat
  String.ofList (List.replicate (16 - digits.length) '0' ++ digits)

end TwoPhaseLocking.Stress

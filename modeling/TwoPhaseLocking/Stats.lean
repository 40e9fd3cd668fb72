/-! # Statistics of a lock manager

Nine counters of 64 bits. They only ever go up, and start again at zero when full.
-/

namespace TwoPhaseLocking

structure Stats where
  /-- Requests that reached a queue, conflicting upgrades included. -/
  lockRequests : UInt64 := 0
  /-- Requests granted by their own grant pass. -/
  immediateGrants : UInt64 := 0
  /-- Requests that were not. -/
  waits : UInt64 := 0
  /-- Requests that replaced a lock already held. -/
  upgrades : UInt64 := 0
  /-- Requests withdrawn because the transaction had been aborted. -/
  abortedWaits : UInt64 := 0
  unlocks : UInt64 := 0
  policyAborts : UInt64 := 0
  detectionPasses : UInt64 := 0
  deadlocksResolved : UInt64 := 0
deriving DecidableEq, Repr, Inhabited

namespace Stats

def lockRequest (s : Stats) : Stats := { s with lockRequests := s.lockRequests + 1 }

def immediateGrant (s : Stats) : Stats := { s with immediateGrants := s.immediateGrants + 1 }

def wait (s : Stats) : Stats := { s with waits := s.waits + 1 }

def upgrade (s : Stats) : Stats := { s with upgrades := s.upgrades + 1 }

def abortedWait (s : Stats) : Stats := { s with abortedWaits := s.abortedWaits + 1 }

def unlock (s : Stats) : Stats := { s with unlocks := s.unlocks + 1 }

def policyAbort (s : Stats) : Stats := { s with policyAborts := s.policyAborts + 1 }

def detectionPass (s : Stats) : Stats := { s with detectionPasses := s.detectionPasses + 1 }

def deadlockResolved (s : Stats) : Stats :=
  { s with deadlocksResolved := s.deadlocksResolved + 1 }

def toList (s : Stats) : List UInt64 :=
  [s.lockRequests, s.immediateGrants, s.waits, s.upgrades, s.abortedWaits, s.unlocks,
    s.policyAborts, s.detectionPasses, s.deadlocksResolved]

end Stats

end TwoPhaseLocking

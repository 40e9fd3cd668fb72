import TwoPhaseLocking.Engine

/-! # What can be seen of a session from outside -/

namespace TwoPhaseLocking

/-- A lock manager as seen from outside. -/
structure ManagerView where
  queues : List (QueueKey × List Request)
  stats : Stats
  active : Nat
deriving DecidableEq

/-- Everything seen from outside: the lock managers and one line for each transaction. -/
structure SessionView where
  managers : List ManagerView
  txns : List String
deriving DecidableEq

def ManagerView.of (m : Manager) : ManagerView where
  queues := (m.queues.toList.map fun (k, q) => (k, q.requests)).filter fun (_, rs) => !rs.isEmpty
  stats := m.stats
  active := m.active.size

end TwoPhaseLocking

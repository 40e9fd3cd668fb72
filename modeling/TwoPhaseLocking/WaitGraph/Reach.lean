import TwoPhaseLocking.WaitGraph

/-! # Vertices on cycles, by reachability

A second way to ask for deadlock, which follows every path from every vertex instead of
searching for one cycle.
-/

namespace TwoPhaseLocking.WaitGraph

/-- Adds to `reached` what is reached from the vertices of `frontier`, whose vertices are
taken up one at a time. Each is taken up once, so `fuel` above the number of edges is
enough. -/
def spread (g : WaitGraph) : (fuel : Nat) → (frontier reached : List TxnId) → List TxnId
  | 0, _, reached => reached
  | _ + 1, [], reached => reached
  | fuel + 1, v :: frontier, reached =>
    let new := (g.holders v).filter (· ∉ reached)
    spread g fuel (new ++ frontier) (new ++ reached)

/-- Every vertex at the end of a path of one or more edges from `v`. -/
def reachableFrom (g : WaitGraph) (v : TxnId) : List TxnId :=
  g.spread (g.size + 1) [v] []

/-- The vertices from which a path leads back to themselves, ascending. -/
def onCycles (g : WaitGraph) : List TxnId :=
  (Std.ExtTreeSet.ofList g.waiters).toList.filter fun v => v ∈ g.reachableFrom v

end TwoPhaseLocking.WaitGraph

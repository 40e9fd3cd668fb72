import TwoPhaseLocking.WaitGraph

/-! # Finding and breaking cycles

`findCycle?` searches a graph in depth from its lowest vertex, neighbours in ascending
order, and gives the first cycle it closes. The victim of a cycle is its youngest
transaction. `breakCycles` takes out one victim after the other until no cycle is left.
-/

namespace TwoPhaseLocking.WaitGraph

/-- The part of a path between `v` and its last vertex, beginning at `v`. The path is
given with its last vertex in front. -/
def closing (path : List TxnId) (v : TxnId) : List TxnId :=
  (path.takeWhile (· != v) ++ [v]).reverse

/-- Searches below `v`, which is reached along `path`. Ends with the vertices seen so far,
or breaks off with the first cycle met, as an error. No path is longer than `fuel` when
that exceeds the number of edges. -/
def explore (g : WaitGraph) :
    (fuel : Nat) → (path seen : List TxnId) → (v : TxnId) → Except (List TxnId) (List TxnId)
  | 0, _, seen, _ => .ok seen
  | fuel + 1, path, seen, v =>
    (g.holders v).foldlM
      (fun seen w =>
        if w ∈ v :: path then .error (closing (v :: path) w)
        else if w ∈ seen then .ok seen
        else explore g fuel (v :: path) seen w)
      (v :: seen)

/-- Searches from each vertex of a list that no earlier search has seen. -/
def exploreAll (g : WaitGraph) (vs : List TxnId) : Except (List TxnId) (List TxnId) :=
  vs.foldlM (fun seen v => if v ∈ seen then .ok seen else g.explore (g.size + 1) [] seen v) []

/-- The first cycle the search closes. -/
def findCycle? (g : WaitGraph) : Option (List TxnId) :=
  match g.exploreAll g.waiters with
  | .error cycle => some cycle
  | .ok _ => none

/-- The youngest transaction on that cycle. -/
def victim? (g : WaitGraph) : Option TxnId :=
  g.findCycle?.bind (·.max?)

/-- Takes out the victim of a cycle, at most `rounds` times. Gives the victims in order
and the graph that remains. -/
def breakCyclesWithin : (rounds : Nat) → WaitGraph → List TxnId × WaitGraph
  | 0, g => ([], g)
  | rounds + 1, g =>
    match g.victim? with
    | none => ([], g)
    | some v => (breakCyclesWithin rounds (g.eraseVertex v)).map (v :: ·) id

/-- Takes out victims until no cycle is left. Each round removes an edge at least. -/
def breakCycles (g : WaitGraph) : List TxnId × WaitGraph :=
  breakCyclesWithin g.size g

end TwoPhaseLocking.WaitGraph

import TwoPhaseLocking.Proofs.Cycle

/-! # Rings

In a ring everybody waits for the next, and the last for the first. The search for a cycle goes
round it once, from the lowest on, and closes it with the last edge. If anybody is taken out, the
others wait in a line that begins behind him.
-/

namespace TwoPhaseLocking.WaitGraph

variable {g : WaitGraph} {n fuel rest v w : Nat}

theorem mem_ring : (⟨v, w⟩ : Edge) ∈ ring n ↔ v < n ∧ w = (v + 1) % n := by
  simp only [ring, mem_ofList, List.mem_map, List.mem_range, Edge.mk.injEq]
  constructor
  · rintro ⟨_, lt, rfl, rfl⟩
    exact ⟨lt, rfl⟩
  · rintro ⟨lt, rfl⟩
    exact ⟨v, lt, rfl, rfl⟩

/-- The edges are listed by whom they go out from, as there is one from each. -/
theorem toList_ring (n : Nat) :
    (ring n).toList = (List.range n).map fun v => ⟨v, (v + 1) % n⟩ := by
  have ascending : ((List.range n).map fun v => (⟨v, (v + 1) % n⟩ : Edge)).Pairwise
      fun a b => compare a b = .lt :=
    List.pairwise_map.2 (List.pairwise_lt_range.imp fun lt => Edge.compare_eq_lt_iff.2 (.inl lt))
  refine Edge.eq_of_ascending (ring n).toList_ordered ascending fun e => ?_
  rw [mem_toList, ring, mem_ofList]

theorem size_ring (n : Nat) : (ring n).size = n := by
  rw [← length_toList, toList_ring, List.length_map, List.length_range]

theorem waiters_ring (n : Nat) : (ring n).waiters = List.range n := by
  rw [waiters, toList_ring, List.map_map]
  exact List.map_id _

theorem holders_ring (lt : v < n) : (ring n).holders v = [(v + 1) % n] := by
  have alone : (List.range n).filter (· == v) = [v] := by
    rw [List.filter_beq, List.count_eq_one_of_mem List.nodup_range (List.mem_range.2 lt)]
    rfl
  rw [holders, toList_ring, List.filter_map, List.map_map]
  change ((List.range n).filter (· == v)).map (fun v => (v + 1) % n) = _
  rw [alone]
  rfl

/-- A path up from 0 that comes back to 0 is closed as a whole. -/
theorem closing_range (v : Nat) : closing (List.range (v + 1)).reverse 0 = List.range (v + 1) := by
  have up : (List.range (v + 1)).reverse = ((List.range v).map Nat.succ).reverse ++ [0] := by
    rw [List.range_succ_eq_map, List.reverse_cons]
  rw [up, closing_append_cons (by simp), ← up, List.reverse_reverse]

/-- The search has been at all those below `v`. It goes on from there to the next vertex, or from
the last one back to the first. -/
theorem explore_ring_succ (lt : v < n) :
    (ring n).explore (fuel + 1) (List.range v).reverse (List.range v).reverse v =
      if v + 1 = n then .error (List.range n)
      else (ring n).explore fuel (List.range (v + 1)).reverse (List.range (v + 1)).reverse (v + 1) := by
  have grown : v :: (List.range v).reverse = (List.range (v + 1)).reverse := by
    rw [List.range_succ, List.reverse_append, List.reverse_singleton, List.singleton_append]
  rw [explore, holders_ring lt, List.foldlM_cons]
  simp only [List.foldlM_nil, bind_pure, grown]
  by_cases last : v + 1 = n
  · rw [if_pos last, last, Nat.mod_self, ← last, if_pos (by simp), closing_range]
  · have new : v + 1 ∉ (List.range (v + 1)).reverse := by simp
    rw [if_neg last, Nat.mod_eq_of_lt (by omega), if_neg new, if_neg new]

/-- From each vertex the search comes round to the first. The induction is on how many vertices are
still ahead. -/
theorem explore_ring (ahead : v + rest + 1 = n) (enough : rest < fuel) :
    (ring n).explore fuel (List.range v).reverse (List.range v).reverse v =
      .error (List.range n) := by
  obtain ⟨fuel, rfl⟩ := Nat.exists_eq_add_one_of_ne_zero (Nat.ne_zero_of_lt enough)
  rw [explore_ring_succ (by omega)]
  induction rest generalizing v fuel with
  | zero => rw [if_pos (by omega)]
  | succ rest ih =>
    obtain ⟨fuel, rfl⟩ := Nat.exists_eq_add_one_of_ne_zero (show fuel ≠ 0 by omega)
    rw [if_neg (by omega), explore_ring_succ (by omega)]
    exact ih (by omega) fuel (by omega)

theorem findCycle?_ring (pos : 0 < n) : (ring n).findCycle? = some (List.range n) := by
  have closed : (ring n).exploreAll (ring n).waiters = .error (List.range n) := by
    obtain ⟨m, rfl⟩ := Nat.exists_eq_add_one_of_ne_zero (Nat.ne_of_gt pos)
    rw [exploreAll, waiters_ring, size_ring, List.range_succ_eq_map, List.foldlM_cons,
      if_neg List.not_mem_nil, ← List.range_succ_eq_map]
    change ((ring (m + 1)).explore (m + 2) (List.range 0).reverse (List.range 0).reverse 0 >>= _) = _
    rw [explore_ring (Nat.succ_inj.2 (Nat.zero_add m)) (by omega)]
    rfl
  rw [findCycle?, closed]

/-- Where everybody waits for somebody higher up, nobody waits for himself in the end. -/
theorem acyclic_of_climbs (rank : TxnId → Nat)
    (climbs : ∀ u w, (⟨u, w⟩ : Edge) ∈ g → rank u < rank w) : g.Acyclic := by
  intro v cycle
  have above : ∀ w, g.Leads v w → rank v < rank w := fun w path => by
    induction path with
    | single edge => exact climbs _ _ edge
    | tail _ edge ih => exact Nat.lt_trans ih (climbs _ _ edge)
  exact Nat.lt_irrefl _ (above v cycle)

/-- Without `v`, everybody is one further from `v` than who waits for him. -/
theorem acyclic_eraseVertex_ring (lt : v < n) : ((ring n).eraseVertex v).Acyclic := by
  refine acyclic_of_climbs (fun u => if v ≤ u then u - v else u + n - v) fun (u w : Nat) edge => ?_
  obtain ⟨ne, ne', there⟩ := mem_eraseVertex.1 edge
  obtain ⟨lt', next⟩ := mem_ring.1 there
  change u ≠ v at ne
  change w ≠ v at ne'
  by_cases last : u + 1 = n
  · rw [last, Nat.mod_self] at next
    split <;> split <;> omega
  · rw [Nat.mod_eq_of_lt (by omega)] at next
    split <;> split <;> omega

/-- In a ring of any number of transactions, be it one that waits for itself, the search finds all
of them in ascending order, and the last is the victim. Once any of them is taken out it finds
nothing. -/
theorem ring_is_one_cycle (pos : 0 < n) :
    (ring n).findCycle? = some (List.range n) ∧ (ring n).victim? = some (n - 1) ∧
      ∀ v < n, ((ring n).eraseVertex v).findCycle? = none := by
  refine ⟨findCycle?_ring pos, ?_, fun v lt => ?_⟩
  · refine victim?_eq_some_iff.2 ⟨_, findCycle?_ring pos, ?_, fun u hu => ?_⟩
    · exact List.mem_range.2 (by omega)
    · exact Nat.le_sub_one_of_lt (List.mem_range.1 hu)
  · exact findCycle?_eq_none_iff.2 (acyclic_eraseVertex_ring lt)

/-- For instance in a ring of three, and when its second is taken out. -/
theorem ring_is_one_cycle_of_three :
    0 < 3 ∧ 1 < 3 ∧ (ring 3).toList = [⟨0, 1⟩, ⟨1, 2⟩, ⟨2, 0⟩] ∧
      (ring 3).findCycle? = some [0, 1, 2] ∧ (ring 3).victim? = some 2 ∧
      ((ring 3).eraseVertex 1).toList = [⟨2, 0⟩] ∧ ((ring 3).eraseVertex 1).findCycle? = none := by
  obtain ⟨found, victim, rest⟩ := ring_is_one_cycle (n := 3) (by decide)
  exact ⟨by decide, by decide, by decide +kernel, found, victim, by decide +kernel,
    rest 1 (by decide)⟩

end TwoPhaseLocking.WaitGraph

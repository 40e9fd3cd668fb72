import Mathlib.Data.Finset.Card
import Mathlib.Data.List.Chain
import Mathlib.Data.List.Perm.Subperm
import Mathlib.Logic.Relation
import TwoPhaseLocking.WaitGraph.Cycle

/-! # The search for cycles finds them

The search keeps a path to where it stands and a set of vertices it has seen. A vertex that
has been seen and is not on the path is done with: so are all its neighbours, and no cycle
goes through it. A search that ends has thus seen that there is no cycle, and one that breaks
off has closed one. Taking out the victim of one cycle after the other ends without cycles.
-/

namespace TwoPhaseLocking.WaitGraph

variable {g : WaitGraph} {path seen : List TxnId} {u v w : TxnId}

/-- A path of one or more edges goes from the first transaction to the second. -/
def Leads (g : WaitGraph) : TxnId → TxnId → Prop :=
  Relation.TransGen fun a b => (⟨a, b⟩ : Edge) ∈ g

def Acyclic (g : WaitGraph) : Prop := ∀ v, ¬ g.Leads v v

/-- Different transactions of which each waits for the next, and the last for the first. -/
structure IsCycle (g : WaitGraph) (vs : List TxnId) : Prop where
  ne_nil : vs ≠ []
  nodup : vs.Nodup
  chain : vs.IsChain fun a b => (⟨a, b⟩ : Edge) ∈ g
  closes : ∀ a b, vs.getLast? = some a → vs.head? = some b → (⟨a, b⟩ : Edge) ∈ g

/-- The transaction is the youngest on a cycle. -/
def TopsCycle (g : WaitGraph) (v : TxnId) : Prop := ∃ vs, g.IsCycle vs ∧ v ∈ vs ∧ ∀ u ∈ vs, u ≤ v

theorem Leads.mono {g' : WaitGraph} (le : ∀ e, e ∈ g → e ∈ g') (h : g.Leads u v) :
    g'.Leads u v :=
  Relation.TransGen.mono (fun a b edge => le ⟨a, b⟩ edge) u v h

theorem Acyclic.mono {g' : WaitGraph} (le : ∀ e, e ∈ g → e ∈ g') (h : g'.Acyclic) : g.Acyclic :=
  fun v cycle => h v (cycle.mono le)

/-- Whoever a path begins at waits for somebody. -/
theorem Leads.waits (h : g.Leads u v) : ∃ w, (⟨u, w⟩ : Edge) ∈ g := by
  obtain ⟨w, edge, -⟩ := Relation.TransGen.head'_iff.1 h
  exact ⟨w, edge⟩

theorem reaches_of_chain {r : TxnId → TxnId → Prop} {a b : TxnId} {vs : List TxnId}
    (chain : (a :: vs).IsChain r) (hb : b ∈ a :: vs) : Relation.ReflTransGen r a b := by
  induction vs generalizing a with
  | nil =>
    rw [List.mem_singleton.1 hb]
  | cons c vs ih =>
    rw [List.isChain_cons_cons] at chain
    rcases List.mem_cons.1 hb with rfl | hb
    · exact .refl
    · exact .head chain.1 (ih chain.2 hb)

/-- From each of its members a cycle leads back there. -/
theorem IsCycle.leads {vs : List TxnId} (cycle : g.IsCycle vs) (hv : v ∈ vs) : g.Leads v v := by
  obtain ⟨xs, ys, rfl⟩ := List.append_of_mem hv
  have onward : Relation.ReflTransGen (fun a b => (⟨a, b⟩ : Edge) ∈ g) v
      ((v :: ys).getLast (by simp)) :=
    reaches_of_chain (List.isChain_append.1 cycle.chain).2.1 (List.getLast_mem _)
  have back : Relation.ReflTransGen (fun a b => (⟨a, b⟩ : Edge) ∈ g)
      ((xs ++ v :: ys).head (by simp)) v := by
    have chain := cycle.chain
    rw [← List.cons_head_tail (l := xs ++ v :: ys) (by simp)] at chain hv
    exact reaches_of_chain chain hv
  have edge := cycle.closes ((v :: ys).getLast (by simp)) ((xs ++ v :: ys).head (by simp))
    (by simp [List.getLast?_eq_some_getLast])
    (List.head?_eq_some_head _)
  exact (Relation.TransGen.tail' onward edge).trans_left back

theorem TopsCycle.leads (tops : g.TopsCycle v) : g.Leads v v := by
  obtain ⟨vs, cycle, on, -⟩ := tops
  exact cycle.leads on

theorem TopsCycle.mono {g' : WaitGraph} (le : ∀ e, e ∈ g → e ∈ g') (tops : g.TopsCycle v) :
    g'.TopsCycle v := by
  obtain ⟨vs, cycle, on, youngest⟩ := tops
  refine ⟨vs, ⟨cycle.ne_nil, cycle.nodup, ?_, ?_⟩, on, youngest⟩
  · exact cycle.chain.imp fun a b edge => le ⟨a, b⟩ edge
  · exact fun a b last head => le ⟨a, b⟩ (cycle.closes a b last head)

/-- The vertices seen and not on the path are done with. -/
structure Settled (g : WaitGraph) (path seen : List TxnId) : Prop where
  onPath : path ⊆ seen
  closed : ∀ u ∈ seen, u ∉ path → ∀ w, (⟨u, w⟩ : Edge) ∈ g → w ∈ seen ∧ w ∉ path
  acyclic : ∀ u ∈ seen, u ∉ path → ¬ g.Leads u u

/-- The path leads to `v`. Its last vertex stands in front. -/
structure Trail (g : WaitGraph) (path : List TxnId) (v : TxnId) : Prop where
  nodup : (v :: path).Nodup
  chain : (v :: path).IsChain fun b a => (⟨a, b⟩ : Edge) ∈ g

/-- What a search for the vertices of a list comes to. -/
def Finds (g : WaitGraph) (path seen ws : List TxnId) :
    Except (List TxnId) (List TxnId) → Prop
  | .ok seen' => g.Settled path seen' ∧ seen ⊆ seen' ∧ ∀ w ∈ ws, w ∈ seen' ∧ w ∉ path
  | .error cycle => g.IsCycle cycle

theorem Settled.of_leads (settled : g.Settled path seen) (h : g.Leads u w) (hu : u ∈ seen)
    (off : u ∉ path) : w ∈ seen ∧ w ∉ path := by
  induction h with
  | single edge => exact settled.closed u hu off _ edge
  | tail _ edge ih => exact settled.closed _ ih.1 ih.2 _ edge

theorem subset_waiters_of_chain (chain : (v :: path).IsChain fun b a => (⟨a, b⟩ : Edge) ∈ g) :
    path ⊆ g.waiters := by
  induction path generalizing v with
  | nil => simp
  | cons u path ih =>
    rw [List.isChain_cons_cons] at chain
    exact List.cons_subset.2 ⟨mem_waiters.2 ⟨v, chain.1⟩, ih chain.2⟩

/-- Everybody on the path waits for somebody, so the path is no longer than there are edges. -/
theorem Trail.length_le (trail : g.Trail path v) : path.length ≤ g.size := by
  have shorter := (List.subperm_of_subset (List.nodup_cons.1 trail.nodup).2
    (subset_waiters_of_chain trail.chain)).length_le
  rwa [waiters, List.length_map, length_toList] at shorter

theorem Trail.step (trail : g.Trail path v) (edge : (⟨v, w⟩ : Edge) ∈ g) (new : w ∉ v :: path) :
    g.Trail (v :: path) w :=
  ⟨List.nodup_cons.2 ⟨new, trail.nodup⟩, List.isChain_cons_cons.2 ⟨edge, trail.chain⟩⟩

theorem closing_append_cons {w : TxnId} {xs ys : List TxnId} (first : w ∉ xs) :
    closing (xs ++ w :: ys) w = (xs ++ [w]).reverse := by
  have others : ∀ x ∈ xs, (x != w) = true := fun x hx =>
    bne_iff_ne.2 (ne_of_mem_of_not_mem hx first)
  rw [closing, List.takeWhile_append_of_pos others, List.takeWhile_cons_of_neg (by simp),
    List.append_nil]

/-- An edge back to the path closes a cycle. -/
theorem Trail.isCycle (trail : g.Trail path v) (edge : (⟨v, w⟩ : Edge) ∈ g)
    (back : w ∈ v :: path) : g.IsCycle (closing (v :: path) w) := by
  obtain ⟨xs, ys, split, first⟩ := List.eq_append_cons_of_mem back
  have eq : closing (v :: path) w = (xs ++ [w]).reverse := by
    rw [split, closing_append_cons first]
  have whole : v :: path = (xs ++ [w]) ++ ys := by
    rw [split, List.append_assoc, List.singleton_append]
  obtain ⟨nodup, chain⟩ := trail
  rw [whole] at nodup chain
  rw [eq]
  constructor
  case ne_nil => simp
  case nodup => exact (List.reverse_perm _).nodup_iff.2 (List.nodup_append.1 nodup).1
  case chain => exact List.isChain_reverse.2 (List.isChain_append.1 chain).1
  case closes =>
    intro a b last head
    rw [List.getLast?_reverse] at last
    rw [List.head?_reverse, List.getLast?_append_of_ne_nil _ (by simp)] at head
    have front : (v :: path).head? = some a := by
      rw [whole, List.head?_append_of_ne_nil _ (by simp), last]
    cases front
    cases head
    exact edge

/-- A search from each vertex of a list in turn. -/
theorem finds_foldlM {search : List TxnId → TxnId → Except (List TxnId) (List TxnId)}
    {ws : List TxnId} (settled : g.Settled path seen)
    (finds : ∀ seen, g.Settled path seen → ∀ w ∈ ws, g.Finds path seen [w] (search seen w)) :
    g.Finds path seen ws (ws.foldlM search seen) := by
  induction ws generalizing seen with
  | nil => exact ⟨settled, fun _ => id, by simp⟩
  | cons w ws ih =>
    have first := finds seen settled w (by simp)
    rw [List.foldlM_cons]
    cases found : search seen w with
    | error cycle =>
      rw [found] at first
      exact first
    | ok seen' =>
      rw [found] at first
      obtain ⟨settled', grown, here⟩ := first
      have rest := ih settled' fun seen settled u hu => finds seen settled u (by simp [hu])
      change g.Finds path seen (w :: ws) (ws.foldlM search seen')
      cases found' : ws.foldlM search seen' with
      | error cycle =>
        rw [found'] at rest
        exact rest
      | ok seen'' =>
        rw [found'] at rest
        obtain ⟨settled'', grown', there⟩ := rest
        refine ⟨settled'', fun u hu => grown' (grown hu), fun u hu => ?_⟩
        rcases List.mem_cons.1 hu with rfl | hu
        · obtain ⟨hw, off⟩ := here u (by simp)
          exact ⟨grown' hw, off⟩
        · exact there u hu

/-- `v` is taken up: it is seen, and on the path. -/
theorem Settled.enter (settled : g.Settled path seen) (new : v ∉ seen) :
    g.Settled (v :: path) (v :: seen) where
  onPath := List.cons_subset_cons v settled.onPath
  closed u hu off w edge := by
    rw [List.mem_cons, not_or] at off
    obtain ⟨hw, off'⟩ := settled.closed u (List.mem_of_ne_of_mem off.1 hu) off.2 w edge
    refine ⟨List.mem_cons_of_mem v hw, ?_⟩
    rw [List.mem_cons, not_or]
    refine ⟨?_, off'⟩
    rintro rfl
    exact new hw
  acyclic u hu off := by
    rw [List.mem_cons, not_or] at off
    exact settled.acyclic u (List.mem_of_ne_of_mem off.1 hu) off.2

/-- `v` is done with when all its neighbours are. -/
theorem Settled.leave (settled : g.Settled (v :: path) seen)
    (done : ∀ w, (⟨v, w⟩ : Edge) ∈ g → w ∈ seen ∧ w ∉ v :: path) : g.Settled path seen where
  onPath := (List.cons_subset.1 settled.onPath).2
  closed u hu off w edge := by
    have next : w ∈ seen ∧ w ∉ v :: path := by
      by_cases same : u = v
      · exact done w (same ▸ edge)
      · exact settled.closed u hu (by simp [same, off]) w edge
    exact ⟨next.1, fun hw => next.2 (List.mem_cons_of_mem v hw)⟩
  acyclic u hu off cycle := by
    by_cases same : u = v
    · subst same
      obtain ⟨w, edge, rest⟩ := Relation.TransGen.head'_iff.1 cycle
      obtain ⟨hw, off'⟩ := done w edge
      rcases Relation.reflTransGen_iff_eq_or_transGen.1 rest with rfl | rest
      · exact off' List.mem_cons_self
      · exact (settled.of_leads rest hw off').2 List.mem_cons_self
    · exact settled.acyclic u hu (by simp [same, off]) cycle

/-- The search below `v` sees `v` and is done with it, or closes a cycle. The induction is on
the fuel, of which there is more than the path can still grow. -/
theorem finds_explore {fuel : Nat} (trail : g.Trail path v) (settled : g.Settled path seen)
    (new : v ∉ seen) (enough : g.size < fuel + path.length) :
    g.Finds path seen [v] (g.explore fuel path seen v) := by
  induction fuel generalizing path seen v with
  | zero =>
    have short := trail.length_le
    omega
  | succ fuel ih =>
    have neighbours :
        g.Finds (v :: path) (v :: seen) (g.holders v) (g.explore (fuel + 1) path seen v) := by
      refine finds_foldlM (settled.enter new) fun seen settled w hw => ?_
      rw [mem_holders] at hw
      split
      · rename_i back
        exact trail.isCycle hw back
      · rename_i off
        split
        · rename_i old
          exact ⟨settled, fun _ => id, by simpa [old] using off⟩
        · rename_i new
          exact ih (trail.step hw off) settled new (by rw [List.length_cons]; omega)
    cases found : g.explore (fuel + 1) path seen v with
    | error cycle =>
      rw [found] at neighbours
      exact neighbours
    | ok seen' =>
      rw [found] at neighbours
      obtain ⟨settled', grown, done⟩ := neighbours
      rw [List.cons_subset] at grown
      refine ⟨settled'.leave fun w edge => done w (mem_holders.2 edge), grown.2, ?_⟩
      simpa using ⟨grown.1, (List.nodup_cons.1 trail.nodup).1⟩

theorem finds_exploreAll (g : WaitGraph) (vs : List TxnId) :
    g.Finds [] [] vs (g.exploreAll vs) := by
  refine finds_foldlM ⟨by simp, by simp, by simp⟩ fun seen settled v _ => ?_
  split
  · rename_i old
    exact ⟨settled, fun _ => id, by simpa using old⟩
  · rename_i new
    exact finds_explore ⟨by simp, by simp⟩ settled new (by simp)

/-- What the search finds is a cycle. -/
theorem isCycle_of_findCycle? {vs : List TxnId} (found : g.findCycle? = some vs) :
    g.IsCycle vs := by
  have finds := g.finds_exploreAll g.waiters
  unfold findCycle? at found
  split at found
  · rename_i cycle eq
    rw [eq] at finds
    rwa [← Option.some.inj found]
  · cases found

/-- When it finds none there is none. -/
theorem acyclic_of_findCycle? (none : g.findCycle? = none) : g.Acyclic := by
  have finds := g.finds_exploreAll g.waiters
  unfold findCycle? at none
  split at none
  · cases none
  · rename_i seen eq
    rw [eq] at finds
    intro v cycle
    have here := finds.2.2 v (mem_waiters.2 cycle.waits)
    exact finds.1.acyclic v here.1 here.2 cycle

theorem findCycle?_eq_none_iff : g.findCycle? = none ↔ g.Acyclic := by
  refine ⟨acyclic_of_findCycle?, fun acyclic => ?_⟩
  cases found : g.findCycle? with
  | none => rfl
  | some vs =>
    have cycle := isCycle_of_findCycle? found
    obtain ⟨v, hv⟩ := List.exists_mem_of_ne_nil vs cycle.ne_nil
    exact absurd (cycle.leads hv) (acyclic v)

/-- The victim is the youngest on the cycle that was found. -/
theorem victim?_eq_some_iff :
    g.victim? = some v ↔ ∃ vs, g.findCycle? = some vs ∧ v ∈ vs ∧ ∀ u ∈ vs, u ≤ v := by
  rw [victim?, Option.bind_eq_some_iff]
  exact exists_congr fun vs => and_congr_right fun _ => List.max?_eq_some_iff

/-- There is no victim only if no cycle was found: a cycle has a youngest member. -/
theorem victim?_eq_none_iff : g.victim? = none ↔ g.findCycle? = none := by
  cases found : g.findCycle? with
  | none => simp [victim?, found]
  | some vs => simp [victim?, found, List.max?_eq_none_iff, (isCycle_of_findCycle? found).ne_nil]

/-- The search finds a cycle exactly if some path leads back to where it begins. What it finds is a
cycle without repetitions, and the victim is its youngest member. -/
theorem cycle_search_sound_and_complete (g : WaitGraph) :
    (g.findCycle?.isSome = true ↔ ∃ v, g.Leads v v) ∧
      (∀ vs, g.findCycle? = some vs →
        g.IsCycle vs ∧ ∃ v ∈ vs, (∀ u ∈ vs, u ≤ v) ∧ g.victim? = some v) ∧
      (g.findCycle? = none → g.victim? = none) := by
  refine ⟨?_, fun vs found => ?_, victim?_eq_none_iff.2⟩
  · rw [Option.isSome_iff_ne_none, ne_eq, findCycle?_eq_none_iff, Acyclic, not_forall_not]
  · have chosen : g.victim? ≠ none := by simp [victim?_eq_none_iff, found]
    obtain ⟨v, chosen⟩ := Option.ne_none_iff_exists'.1 chosen
    obtain ⟨us, found', on, youngest⟩ := victim?_eq_some_iff.1 chosen
    cases found.symm.trans found'
    exact ⟨isCycle_of_findCycle? found, v, on, youngest, chosen⟩

/-- For instance, from 1 the search comes by way of 9 upon the cycle of 2, 3 and 4, on which 4 is the
youngest. -/
theorem cycle_found_behind_a_path :
    (ofList [⟨1, 9⟩, ⟨9, 2⟩, ⟨2, 3⟩, ⟨3, 4⟩, ⟨4, 2⟩]).findCycle? = some [2, 3, 4] ∧
      (ofList [⟨1, 9⟩, ⟨9, 2⟩, ⟨2, 3⟩, ⟨3, 4⟩, ⟨4, 2⟩]).IsCycle [2, 3, 4] ∧
      (ofList [⟨1, 9⟩, ⟨9, 2⟩, ⟨2, 3⟩, ⟨3, 4⟩, ⟨4, 2⟩]).victim? = some 4 ∧
      (∅ : WaitGraph).victim? = none := by
  have found : (ofList [⟨1, 9⟩, ⟨9, 2⟩, ⟨2, 3⟩, ⟨3, 4⟩, ⟨4, 2⟩]).findCycle? = some [2, 3, 4] := by
    decide +kernel
  exact ⟨found, ((cycle_search_sound_and_complete _).2.1 _ found).1, by decide +kernel,
    (cycle_search_sound_and_complete ∅).2.2 (by decide +kernel)⟩

/-- As long as there is a victim it is taken out. This takes out these, in order, and leaves this
graph. -/
inductive Breaks : WaitGraph → List TxnId → WaitGraph → Prop where
  | done {g : WaitGraph} (nobody : g.victim? = none) : Breaks g [] g
  | round {g g' : WaitGraph} {v : TxnId} {vs : List TxnId} (chosen : g.victim? = some v)
      (rest : Breaks (g.eraseVertex v) vs g') : Breaks g (v :: vs) g'

variable {g' : WaitGraph} {vs : List TxnId}

/-- The victim is the youngest on a cycle. -/
theorem topsCycle_of_victim? (chosen : g.victim? = some v) : g.TopsCycle v := by
  obtain ⟨vs, found, on, youngest⟩ := victim?_eq_some_iff.1 chosen
  exact ⟨vs, isCycle_of_findCycle? found, on, youngest⟩

theorem acyclic_of_victim? (nobody : g.victim? = none) : g.Acyclic :=
  acyclic_of_findCycle? (victim?_eq_none_iff.1 nobody)

/-- A victim is one who waits, and when it is taken out fewer do. -/
theorem card_waiters_eraseVertex_lt (chosen : g.victim? = some v) :
    (g.eraseVertex v).waiters.toFinset.card < g.waiters.toFinset.card := by
  refine Finset.card_lt_card ((Finset.ssubset_iff_of_subset fun u hu => ?_).2 ⟨v, ?_, ?_⟩)
  · rw [List.mem_toFinset, mem_waiters] at hu ⊢
    exact hu.imp fun w edge => (mem_eraseVertex.1 edge).2.2
  · rw [List.mem_toFinset, mem_waiters]
    exact (topsCycle_of_victim? chosen).leads.waits
  · rw [List.mem_toFinset, mem_waiters]
    rintro ⟨w, edge⟩
    exact (mem_eraseVertex.1 edge).1 rfl

/-- No more are taken out than wait. -/
theorem Breaks.length_le (breaks : g.Breaks vs g') : vs.length ≤ g.waiters.toFinset.card := by
  induction breaks with
  | done => exact Nat.zero_le _
  | round chosen _ ih => exact Nat.lt_of_le_of_lt ih (card_waiters_eraseVertex_lt chosen)

/-- What remains is the graph without those taken out. -/
theorem Breaks.mem_iff (breaks : g.Breaks vs g') (e : Edge) :
    e ∈ g' ↔ e ∈ g ∧ e.waiter ∉ vs ∧ e.holder ∉ vs := by
  induction breaks with
  | done => simp
  | round _ _ ih =>
    rw [ih, mem_eraseVertex, List.mem_cons, List.mem_cons]
    grind

theorem Breaks.acyclic (breaks : g.Breaks vs g') : g'.Acyclic := by
  induction breaks with
  | done nobody => exact acyclic_of_victim? nobody
  | round _ _ ih => exact ih

/-- Whoever is taken out was the youngest on a cycle of the whole graph. -/
theorem Breaks.topsCycle (breaks : g.Breaks vs g') : ∀ u ∈ vs, g.TopsCycle u := by
  induction breaks with
  | done => simp
  | round chosen _ ih =>
    intro u hu
    rcases List.mem_cons.1 hu with rfl | hu
    · exact topsCycle_of_victim? chosen
    · exact (ih u hu).mono fun e he => (mem_eraseVertex.1 he).2.2

/-- Nobody is taken out twice: who is gone waits for nobody, so is on no cycle. -/
theorem Breaks.nodup (breaks : g.Breaks vs g') : vs.Nodup := by
  induction breaks with
  | done => exact .nil
  | round _ rest ih =>
    refine List.nodup_cons.2 ⟨fun again => ?_, ih⟩
    obtain ⟨u, edge⟩ := (rest.topsCycle _ again).leads.waits
    exact (mem_eraseVertex.1 edge).1 rfl

/-- As many rounds as there are who wait are enough. -/
theorem breaks_breakCyclesWithin {rounds : Nat} (enough : g.waiters.toFinset.card ≤ rounds) :
    g.Breaks (breakCyclesWithin rounds g).1 (breakCyclesWithin rounds g).2 := by
  induction rounds generalizing g with
  | zero =>
    refine .done (Option.eq_none_iff_forall_ne_some.2 fun v chosen => ?_)
    have fewer := card_waiters_eraseVertex_lt chosen
    omega
  | succ rounds ih =>
    rw [breakCyclesWithin]
    split
    · rename_i nobody
      exact .done nobody
    · rename_i v chosen
      have fewer := card_waiters_eraseVertex_lt chosen
      exact .round chosen (ih (by omega))

theorem breaks_breakCycles (g : WaitGraph) : g.Breaks g.breakCycles.1 g.breakCycles.2 := by
  refine breaks_breakCyclesWithin (Nat.le_trans g.waiters.toFinset_card_le (Nat.le_of_eq ?_))
  rw [waiters, List.length_map, length_toList]

/-- Each round is determined by the one before. -/
theorem Breaks.unique {vs' : List TxnId} {g'' : WaitGraph} (breaks : g.Breaks vs g')
    (breaks' : g.Breaks vs' g'') : vs' = vs ∧ g'' = g' := by
  induction breaks generalizing vs' with
  | done nobody =>
    cases breaks' with
    | done => exact ⟨rfl, rfl⟩
    | round chosen => rw [nobody] at chosen; cases chosen
  | round chosen _ ih =>
    cases breaks' with
    | done nobody => rw [nobody] at chosen; cases chosen
    | round chosen' rest' =>
      cases chosen.symm.trans chosen'
      obtain ⟨rfl, rfl⟩ := ih rest'
      exact ⟨rfl, rfl⟩

theorem acyclic_breakCycles (g : WaitGraph) : g.breakCycles.2.Acyclic :=
  g.breaks_breakCycles.acyclic

theorem mem_breakCycles {e : Edge} : e ∈ g.breakCycles.2 ↔
    e ∈ g ∧ e.waiter ∉ g.breakCycles.1 ∧ e.holder ∉ g.breakCycles.1 :=
  g.breaks_breakCycles.mem_iff e

theorem topsCycle_of_mem_breakCycles (hv : v ∈ g.breakCycles.1) : g.TopsCycle v :=
  g.breaks_breakCycles.topsCycle v hv

theorem leads_of_mem_breakCycles (hv : v ∈ g.breakCycles.1) : g.Leads v v :=
  (topsCycle_of_mem_breakCycles hv).leads

theorem nodup_breakCycles (g : WaitGraph) : g.breakCycles.1.Nodup :=
  g.breaks_breakCycles.nodup

/-- Taking out one victim after the other ends, after no more rounds than there are who wait. Those
taken out are different and each was on a cycle from the start. What remains is all edges that touch
none of them, without any cycle. -/
theorem breaking_ends_without_cycles (g : WaitGraph) :
    ∃ vs g', g.Breaks vs g' ∧ (∀ us h, g.Breaks us h → us = vs ∧ h = g') ∧
      (vs, g') = g.breakCycles ∧ vs.length ≤ g.waiters.toFinset.card ∧ vs.Nodup ∧
      (∀ v ∈ vs, ∃ us, g.IsCycle us ∧ v ∈ us) ∧
      (∀ e, e ∈ g' ↔ e ∈ g ∧ e.waiter ∉ vs ∧ e.holder ∉ vs) ∧ g'.Acyclic := by
  have breaks := g.breaks_breakCycles
  refine ⟨g.breakCycles.1, g.breakCycles.2, breaks, fun _ _ => breaks.unique, rfl,
    breaks.length_le, breaks.nodup, fun v hv => ?_, breaks.mem_iff, breaks.acyclic⟩
  obtain ⟨us, cycle, on, -⟩ := breaks.topsCycle v hv
  exact ⟨us, cycle, on⟩

/-- Nobody has to go exactly if there is no cycle. -/
theorem breakCycles_eq_nil_iff : g.breakCycles.1 = [] ↔ g.Acyclic := by
  constructor
  · intro none
    refine g.acyclic_breakCycles.mono fun e he => mem_breakCycles.2 ⟨he, ?_, ?_⟩
    · simp [none]
    · simp [none]
  · intro acyclic
    refine List.eq_nil_iff_forall_not_mem.2 fun v hv => ?_
    exact acyclic v (leads_of_mem_breakCycles hv)

end TwoPhaseLocking.WaitGraph

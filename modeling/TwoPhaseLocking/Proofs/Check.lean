import TwoPhaseLocking.Proofs.Bookkeeping
import TwoPhaseLocking.Proofs.Consistency
import TwoPhaseLocking.Queue.Check

/-! # The check of a queue misses nothing

The three scans of the check each stop at the first fault of their kind. A scan that runs through has
looked at every request and every pair of them, though each step looks only at what stands behind.
What a scan reports is there.
-/

namespace TwoPhaseLocking

/-- The fault is one of these requests. -/
def QueueFault.Occurs (rs : List Request) : QueueFault → Prop
  | repeated txn => 2 ≤ (rs.map (·.txn)).count txn
  | overtaken late waiting => ∃ a b, [a, b].Sublist rs ∧ a.granted = false ∧ b.granted = true ∧
      a.txn = waiting ∧ b.txn = late
  | conflict a b => [a, b].Sublist rs ∧ a.granted = true ∧ b.granted = true ∧
      a.mode.compatible b.mode = false

namespace Queue

variable {rs : List Request} {seen ids : List TxnId} {id late waiting : TxnId} {a b : Request}

/-- The scan has run through if nobody comes twice, and nobody who was seen before. -/
theorem firstRepeated_eq_none_iff :
    firstRepeated seen ids = none ↔ ids.Nodup ∧ ∀ id ∈ ids, id ∉ seen := by
  induction ids generalizing seen with
  | nil => simp [firstRepeated]
  | cons id ids ih =>
    rw [firstRepeated]
    split
    · rename_i before
      simp [before]
    · rename_i new
      rw [ih, List.nodup_cons]
      grind

theorem count_of_firstRepeated (found : firstRepeated seen ids = some id) :
    2 ≤ (seen ++ ids).count id := by
  induction ids generalizing seen with
  | nil => cases found
  | cons x ids ih =>
    rw [firstRepeated] at found
    split at found
    · rename_i before
      cases found
      have once : 0 < seen.count id := List.count_pos_iff.2 before
      rw [List.count_append, List.count_cons_self]
      omega
    · rw [List.perm_middle.count_eq]
      exact ih found

theorem firstOvertaken_cons (r : Request) (rs : List Request) : firstOvertaken (r :: rs) =
    if r.granted then firstOvertaken rs
    else (rs.find? (·.granted)).map fun late => (late.txn, r.txn) := by
  cases granted : r.granted <;> simp [firstOvertaken, granted]

theorem firstOvertaken_eq_none_iff : firstOvertaken rs = none ↔
    rs.Pairwise fun a b => b.granted = true → a.granted = true := by
  induction rs with
  | nil => exact iff_of_true rfl .nil
  | cons r rs ih =>
    rw [firstOvertaken_cons, List.pairwise_cons]
    cases granted : r.granted with
    | true => simpa using ih
    | false =>
      -- behind one who waits the scan looks for any that is granted, so the rest is in order too
      simp only [Bool.false_eq_true, ↓reduceIte, Option.map_eq_none_iff, List.find?_eq_none,
        imp_false]
      refine ⟨fun none => ⟨none, ?_⟩, And.left⟩
      exact List.pairwise_of_forall_mem_list fun a _ b hb late => absurd late (none b hb)

theorem pair_of_firstOvertaken (found : firstOvertaken rs = some (late, waiting)) :
    ∃ a b, [a, b].Sublist rs ∧ a.granted = false ∧ b.granted = true ∧ a.txn = waiting ∧
      b.txn = late := by
  induction rs with
  | nil => cases found
  | cons r rs ih =>
    rw [firstOvertaken_cons] at found
    split at found
    · obtain ⟨a, b, both, are⟩ := ih found
      exact ⟨a, b, both.cons r, are⟩
    · rename_i waits
      obtain ⟨b, first, names⟩ := Option.map_eq_some_iff.1 found
      cases names
      have behind : [b].Sublist rs := List.singleton_sublist.2 (List.mem_of_find?_eq_some first)
      exact ⟨r, b, behind.cons_cons r, Bool.eq_false_iff.2 waits, List.find?_some first, rfl, rfl⟩

theorem firstConflict_eq_none_iff : firstConflict rs = none ↔
    rs.Pairwise fun a b => a.mode.compatible b.mode = true := by
  induction rs with
  | nil => exact iff_of_true rfl .nil
  | cons a rs ih =>
    rw [firstConflict, List.pairwise_cons, ← ih]
    split
    · rename_i b first
      have clash := List.find?_some first
      have there := List.mem_of_find?_eq_some first
      simp only [reduceCtorEq, false_iff, not_and]
      intro all
      simp [all b there] at clash
    · rename_i none
      have goes : ∀ b ∈ rs, a.mode.compatible b.mode = true := by simpa using none
      exact (and_iff_right goes).symm

theorem pair_of_firstConflict (found : firstConflict rs = some (a, b)) :
    [a, b].Sublist rs ∧ a.mode.compatible b.mode = false := by
  induction rs with
  | nil => cases found
  | cons r rs ih =>
    rw [firstConflict] at found
    split at found
    · rename_i x first
      cases found
      have behind : [b].Sublist rs := List.singleton_sublist.2 (List.mem_of_find?_eq_some first)
      exact ⟨behind.cons_cons a, by simpa using List.find?_some first⟩
    · obtain ⟨both, clash⟩ := ih found
      exact ⟨both.cons r, clash⟩

/-- Any two granted requests go together if each goes with those behind it. -/
theorem pairwise_compatible_iff :
    (rs.Pairwise fun a b =>
      a.granted = true → b.granted = true → a.mode.compatible b.mode = true) ↔
      ∀ (i j : Nat) (hi : i < rs.length) (hj : j < rs.length), i ≠ j → rs[i].granted = true →
        rs[j].granted = true → rs[i].mode.compatible rs[j].mode = true := by
  rw [List.pairwise_iff_getElem]
  constructor
  · intro ordered i j hi hj ne granted granted'
    rcases Nat.lt_or_gt_of_ne ne with lt | gt
    · exact ordered i j hi hj lt granted granted'
    · rw [Mode.compatible_comm]
      exact ordered j i hj hi gt granted' granted
  · intro all i j hi hj lt
    exact all i j hi hj (Nat.ne_of_lt lt)

theorem fault?_eq_none_iff : fault? rs = none ↔ (ofList rs).Once ∧ (ofList rs).Orderly := by
  have scans : fault? rs = none ↔ firstRepeated [] (rs.map (·.txn)) = none ∧
      firstOvertaken rs = none ∧ firstConflict (rs.filter (·.granted)) = none := by
    simp [fault?, and_assoc]
  rw [scans, firstRepeated_eq_none_iff, firstOvertaken_eq_none_iff, firstConflict_eq_none_iff,
    List.pairwise_filter]
  constructor
  · rintro ⟨⟨once, -⟩, front, compatible⟩
    exact ⟨once, front, compatible⟩
  · rintro ⟨once, front, compatible⟩
    exact ⟨⟨once, by simp⟩, front, compatible⟩

theorem occurs_of_fault? {f : QueueFault} (found : fault? rs = some f) : f.Occurs rs := by
  unfold fault? at found
  rcases Option.or_eq_some_iff.1 found with found | ⟨-, found⟩
  · rcases Option.or_eq_some_iff.1 found with found | ⟨-, found⟩
    · obtain ⟨id, repeats, rfl⟩ := Option.map_eq_some_iff.1 found
      exact count_of_firstRepeated repeats
    · obtain ⟨⟨late, waiting⟩, overtakes, rfl⟩ := Option.map_eq_some_iff.1 found
      exact pair_of_firstOvertaken overtakes
  · obtain ⟨⟨a, b⟩, clashes, rfl⟩ := Option.map_eq_some_iff.1 found
    obtain ⟨both, clash⟩ := pair_of_firstConflict clashes
    have granted (x : Request) (hx : x ∈ [a, b]) : x.granted = true :=
      (List.mem_filter.1 (both.subset hx)).2
    exact ⟨both.trans List.filter_sublist, granted a (by simp), granted b (by simp), clash⟩

/-- The check finds no fault in a list of requests exactly if no transaction comes twice, no request
is granted behind one that waits, and any two granted requests are in compatible modes. Whatever
fault it names is there. -/
theorem check_is_exact (rs : List Request) :
    (fault? rs = none ↔ (rs.map (·.txn)).Nodup ∧
      (rs.Pairwise fun a b => b.granted = true → a.granted = true) ∧
      ∀ (i j : Nat) (hi : i < rs.length) (hj : j < rs.length), i ≠ j → rs[i].granted = true →
        rs[j].granted = true → rs[i].mode.compatible rs[j].mode = true) ∧
    ∀ f, fault? rs = some f → f.Occurs rs := by
  refine ⟨?_, fun f => occurs_of_fault?⟩
  rw [fault?_eq_none_iff, ← pairwise_compatible_iff]
  exact and_congr_right fun _ => ⟨fun orderly => ⟨orderly.front, orderly.compatible⟩,
    fun both => ⟨both.1, both.2⟩⟩

/-- For instance, two transactions write side by side, while a third waits behind them. -/
example : fault? [⟨1, 1, .intentionExclusive, .table 5, true⟩, ⟨2, 2, .exclusive, .table 5, true⟩,
    ⟨3, 3, .shared, .table 5, false⟩] = some (.conflict ⟨1, 1, .intentionExclusive, .table 5, true⟩
      ⟨2, 2, .exclusive, .table 5, true⟩) := by
  decide

end Queue

/-- Whatever fair clients do, the check finds no fault in any queue. -/
theorem Engine.Reachable.fault?_eq_none {tableOf : RowId → TableId} {config : Config} {s : Engine}
    (reach : Reachable config (fun s e => e.Fair tableOf s) s) (k : QueueKey) :
    Queue.fault? (s.queue k).requests = none := by
  have tidy := reach.tidy k
  exact Queue.fault?_eq_none_iff.2 ⟨reach.books.once k, tidy.front, tidy.compatible⟩

end TwoPhaseLocking

import TwoPhaseLocking.Proofs.Consistency
import TwoPhaseLocking.Proofs.Finish
import TwoPhaseLocking.Proofs.Strokes
import TwoPhaseLocking.Proofs.Wakeup

/-! # Queues and locks are walked through in any order

Giving back locks, waking the calls of a transaction and scanning for deadlocks walk through many
locks or queues one after the other. Giving back one lock does not stand in the way of giving back
another, a queue that is looked through once more has nobody left to grant, and a scan only
collects. So every operation comes to the same in whatever order it walks.
-/

namespace TwoPhaseLocking

/-- Everything the other way round. -/
def Walk.descending : Walk where
  queues s := s.queues.keys.reverse
  locks s h :=
    let rs := (s.txn h).locks.toList.map (·.resource)
    (rs.filter fun r => !r.isTable).reverse ++ (rs.filter (·.isTable)).reverse

theorem Walk.complete_descending : Walk.descending.Complete where
  queues _ := List.reverse_perm _
  locks _ _ := ((List.reverse_perm _).append (List.reverse_perm _)).trans
    (List.perm_append_comm.trans (List.filter_append_perm _ _))
  rowsFirst _ _ := by
    refine List.pairwise_append.2 ⟨List.pairwise_of_forall_mem_list fun a ha b _ table => ?_,
      List.pairwise_of_forall_mem_list fun a _ b hb _ => ?_, fun a _ b hb _ => ?_⟩
    · simp [table] at ha
    · exact (List.mem_filter.1 (List.mem_reverse.1 hb)).2
    · exact (List.mem_filter.1 (List.mem_reverse.1 hb)).2

/-- A lock is given back. -/
def Stroke.give (id : TxnId) (h : Handle) (l : Lock) : Stroke where
  key := l.resource.key
  queue q := (q.remove id).grant
  handle := h
  txn := (·.forget l.resource l.mode)
  sleeper v := some (v.tell l.resource.key)
  stats := Stats.unlock

theorem Transaction.forget_comm (t : Transaction) (r r' : Resource) (m m' : Mode) :
    (t.forget r m).forget r' m' = (t.forget r' m').forget r m := by
  refine congrArg (fun locks => { t with locks }) (LockSet.ext fun l => ?_)
  exact LockSet.mem_forget.trans (((and_congr_right' LockSet.mem_forget).trans and_left_comm).trans
    (LockSet.mem_forget.trans (and_congr_right' LockSet.mem_forget)).symm)

/-- Locks may be given back in either order. -/
theorem Stroke.give_comm (id : TxnId) (h : Handle) (l l' : Lock) (s : Engine) :
    (give id h l').apply ((give id h l).apply s) =
      (give id h l).apply ((give id h l').apply s) := by
  apply apply_comm
  case queues => exact fun _ => rfl
  case txns => exact fun _ t => t.forget_comm _ _ _ _
  case sleepers =>
    intro v _
    simp [give, Sleeper.tell, Bool.or_right_comm]
  case stats => exact fun _ => rfl

namespace Engine

variable {tableOf : RowId → TableId} {s : Engine} {h : Handle} {k : QueueKey} {id : TxnId}
  {r : Resource} {rs : List Resource} {m : Mode} {ks ks' : List QueueKey} {w w' : Walk}

theorem give_eq (s : Engine) (h : Handle) (r : Resource) (m : Mode) :
    ((s.dropLock h r m).grantAndNotify r.key).tally Stats.unlock =
      (Stroke.give (s.txn h).id h ⟨r, m⟩).apply s := by
  have edits := congrArg (·.queues)
    (s.updateQueue_updateQueue r.key (·.remove (s.txn h).id) Queue.grant)
  refine Engine.ext rfl rfl edits rfl rfl rfl rfl ?_ rfl rfl
  change ((s.dropLock h r m).grantAndNotify r.key).sleepers = _
  rw [sleepers_grantAndNotify, ← List.filterMap_eq_map]
  rfl

/-- Giving back all locks is a stroke for each, whose modes can be read off before. -/
theorem Books.releaseEach_eq (books : s.Books tableOf) (owes : s.Owes h rs)
    (own : (s.txn h).id = id) (mode : Resource → Mode)
    (held : ∀ r ∈ rs, (⟨r, mode r⟩ : Lock) ∈ (s.txn h).locks) :
    releaseEach (fun _ s => s) s h rs =
      (rs.foldl (fun s r => (Stroke.give id h ⟨r, mode r⟩).apply s) s, .done) := by
  induction rs generalizing s with
  | nil => rfl
  | cons r rs ih =>
    obtain ⟨m, s', found, given, unlocked, books', owes', txn, -⟩ := books.unlock_next owes
    have here := held r List.mem_cons_self
    obtain rfl : m = mode r := (books.lock_unique (LockSet.mem_of_mode? found) here rfl).2
    rw [give_eq, own] at given
    rw [releaseEach, unlocked, List.foldl_cons, ← given]
    refine ih books' owes' ?_ fun r' there => ?_
    · rw [txn]
      exact own
    · rw [txn]
      refine LockSet.mem_forget.2 ⟨?_, held r' (List.mem_cons_of_mem _ there)⟩
      rintro ⟨⟩
      exact (List.nodup_cons.1 owes.nodup).1 there

/-- The modes in which the locks to be given back are held. -/
theorem Owes.exists_modes (owes : s.Owes h rs) :
    ∃ mode : Resource → Mode, ∀ r ∈ rs, (⟨r, mode r⟩ : Lock) ∈ (s.txn h).locks := by
  refine ⟨fun r => ((s.txn h).locks.mode? r).getD default, fun r there => ?_⟩
  obtain ⟨m', held⟩ := owes.held r there
  obtain ⟨m, found⟩ := LockSet.exists_mode? held
  simpa only [found, Option.getD_some] using LockSet.mem_of_mode? found

/-- The locks of a transaction may be given back in any order that has rows before tables. -/
theorem Books.releaseEach_congr (books : s.Books tableOf) (complete : w.Complete)
    (complete' : w'.Complete) : releaseEach (fun _ s => s) s h (w.locks s h) =
      releaseEach (fun _ s => s) s h (w'.locks s h) := by
  obtain ⟨mode, held⟩ := (books.owes complete h).exists_modes
  have same : (w.locks s h).Perm (w'.locks s h) :=
    (complete.locks s h).trans (complete'.locks s h).symm
  rw [books.releaseEach_eq (books.owes complete h) rfl mode held,
    books.releaseEach_eq (books.owes complete' h) rfl mode fun r there =>
      held r (same.mem_iff.2 there),
    same.foldl_eq' fun r _ r' _ s' => Stroke.give_comm _ h ⟨r, mode r⟩ ⟨r', mode r'⟩ s']

/-- In a tidy state nobody is granted anything when a queue is looked through once more. -/
theorem Tidy.grantAndNotify_eq (tidy : s.Tidy) (there : k ∈ s.queues) :
    s.grantAndNotify k = { s with sleepers := s.sleepers.map (·.tell k) } := by
  have still := congrArg (·.queues) (updateQueue_eq_self there (tidy k).grant_eq)
  exact Engine.ext rfl rfl still rfl rfl rfl rfl (s.sleepers_grantAndNotify k) rfl rfl

theorem Tidy.wakeIn_eq (tidy : s.Tidy) (ks : List QueueKey) (id : TxnId) :
    s.wakeIn ks id = { s with sleepers := (s.wakeIn ks id).sleepers } := by
  induction ks generalizing s with
  | nil => rfl
  | cons k ks ih =>
    rw [wakeIn, List.foldl_cons, ← wakeIn]
    split
    · rename_i has
      rw [tidy.grantAndNotify_eq (mem_queues_of_has has)]
      exact ih tidy
    · exact ih tidy

/-- The calls of a transaction are woken in any order of its queues. -/
theorem Tidy.wakePending_congr (tidy : s.Tidy) (complete : w.Complete) (complete' : w'.Complete)
    (id : TxnId) : s.wakePending w id = s.wakePending w' id := by
  have same : (s.wakePending w id).sleepers = (s.wakePending w' id).sleepers := by
    have all := sleepers_wakeEach (s := s) complete [id]
    exact all.trans (sleepers_wakeEach complete' [id]).symm
  rw [wakePending, tidy.wakeIn_eq, ← wakePending, same, wakePending, ← tidy.wakeIn_eq]

theorem Tidy.wakeEach_congr (tidy : s.Tidy) (complete : w.Complete) (complete' : w'.Complete)
    (ids : List TxnId) : ids.foldl (wakePending w) s = ids.foldl (wakePending w') s := by
  induction ids generalizing s with
  | nil => rfl
  | cons id ids ih =>
    have path : Path (fun _ _ => True) s (s.wakePending w' id) :=
      wakeIn_path (fun _ _ => trivial) _ id
    have woken := tidy.path path
    rw [List.foldl_cons, List.foldl_cons, tidy.wakePending_congr complete complete', ih woken]

theorem strandedIn_congr (same : ks.Perm ks') : s.strandedIn ks = s.strandedIn ks' := by
  have found : (Std.ExtTreeSet.ofList (ks.flatMap fun k => (s.queue k).waiting) compare) =
      Std.ExtTreeSet.ofList (ks'.flatMap fun k => (s.queue k).waiting) compare := by
    refine Std.ExtTreeSet.ext_mem fun id => ?_
    simp only [Std.ExtTreeSet.mem_ofList, List.contains_iff_mem, List.mem_flatMap, same.mem_iff]
  rw [strandedIn, found, strandedIn]

theorem waitGraphOf_congr (same : ks.Perm ks') : s.waitGraphOf ks = s.waitGraphOf ks' := by
  refine WaitGraph.ext fun e => ?_
  simp only [waitGraphOf, WaitGraph.mem_ofList, List.mem_filter, List.mem_flatMap, same.mem_iff]

/-- A detection pass scans the queues in any order. -/
theorem Tidy.detect_congr (tidy : s.Tidy) (complete : w.Complete) (complete' : w'.Complete) :
    s.detect w = s.detect w' := by
  have same : (w.queues (s.tally Stats.detectionPass)).Perm (w'.queues _) :=
    (complete.queues _).trans (complete'.queues _).symm
  unfold detect
  dsimp only
  rw [strandedIn_congr same, waitGraphOf_congr same]
  have path : Path (fun _ _ => True) (s.tally Stats.detectionPass)
      ((s.tally Stats.detectionPass).sacrifice s.config.resolveAll
        ((s.tally Stats.detectionPass).waitGraphOf
          (w'.queues (s.tally Stats.detectionPass))).breakCycles.1).1 :=
    sacrifice_path (fun _ _ _ => trivial) (fun _ => trivial) _ _
  have scanned := Tidy.path (s := s.tally Stats.detectionPass) tidy path
  refine Prod.ext (Tidy.wakeEach_congr ?_ complete complete' _) rfl
  exact scanned

theorem Tidy.abortAndWake_congr (tidy : s.Tidy) (complete : w.Complete) (complete' : w'.Complete) :
    s.abortAndWake w h = s.abortAndWake w' h := by
  have marked : (s.updateTxn h (·.abort none)).Tidy := tidy
  exact marked.wakePending_congr complete complete' _

theorem Books.abort_congr (books : s.Books tableOf) (tidy : s.Tidy) (complete : w.Complete)
    (complete' : w'.Complete) : s.abort w h = s.abort w' h := by
  have books' : (s.abortAndWake w' h).Books tableOf := books.abortAndWake
  unfold abort releaseAll
  rw [tidy.abortAndWake_congr complete complete', books'.releaseEach_congr complete complete']

/-- Every operation comes to the same in whatever order it walks. -/
theorem Books.perform_congr (books : s.Books tableOf) (tidy : s.Tidy) (complete : w.Complete)
    (complete' : w'.Complete) (op : Op) : s.perform w op = s.perform w' op := by
  have same : s.carryOut w op = s.carryOut w' op := by
    cases op with
    | releaseAll h =>
      have released := books.releaseEach_congr (h := h) complete complete'
      simp only [carryOut, releaseAll, released]
    | commit h =>
      have released := books.releaseEach_congr (h := h) complete complete'
      simp only [carryOut, commit, commitWith, released]
    | abort h => rw [carryOut, books.abort_congr tidy complete complete', carryOut]
    | abortAndWake h => rw [carryOut, tidy.abortAndWake_congr complete complete', carryOut]
    | detect => rw [carryOut, tidy.detect_congr complete complete', carryOut]
    | _ => rfl
  rw [perform, same, perform]

end Engine

end TwoPhaseLocking

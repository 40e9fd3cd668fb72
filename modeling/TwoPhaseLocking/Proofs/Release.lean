import Mathlib.Data.List.Nodup
import TwoPhaseLocking.Proofs.Bookkeeping

/-! # Giving back locks one by one

The locks of a transaction are given back in a list made before the first of them goes. Each unlock
call takes one entry off the list and one lock off the record, so none of them asks for a lock that
is not there or a table whose rows are still locked. That a request is missing in a queue is another
matter. It cannot be where the transaction has as many requests in each queue as it has locks there.
-/

namespace TwoPhaseLocking

/-- Taking out the first of them leaves one less. -/
theorem countP_eraseP {α : Type} (p : α → Bool) (l : List α) :
    (l.eraseP p).countP p = l.countP p - 1 := by
  induction l with
  | nil => rfl
  | cons a l ih =>
    cases first : p a with
    | true => simp [first]
    | false => simp [first, ih]

/-- A grant pass leaves everybody his requests. -/
theorem Queue.countP_grant (q : Queue) (id : TxnId) :
    q.grant.requests.countP (·.txn == id) = q.requests.countP (·.txn == id) := by
  have same := congrArg (List.countP (·.txn == id)) (grantWaiting_map_ungranted q.heldModes q.requests)
  rwa [List.countP_map, List.countP_map] at same

theorem Queue.has_eq_false_iff {q : Queue} {id : TxnId} :
    q.has id = false ↔ q.requests.countP (·.txn == id) = 0 := by
  rw [Bool.eq_false_iff, Ne, Queue.has_iff, List.countP_eq_zero]
  simp

theorem LockSet.perm_forget {locks : LockSet} {r : Resource} {m : Mode}
    (there : (⟨r, m⟩ : Lock) ∈ locks) :
    locks.toList.Perm (⟨r, m⟩ :: (locks.forget r m).1.toList) := by
  refine (List.perm_ext_iff_of_nodup locks.nodup_toList (List.nodup_cons.2 ⟨?_, ?_⟩)).2 fun l => ?_
  · simp
  · exact LockSet.nodup_toList _
  · rw [List.mem_cons, mem_toList, mem_toList, mem_forget]
    by_cases same : l = ⟨r, m⟩ <;> simp [same, there]

namespace Engine

variable {s s' : Engine} {h : Handle} {r : Resource} {forced : Bool} {m : Mode} {e : LockError}
  {rs : List Resource} {w : Walk} {who : TxnId} {reason : AbortReason}

theorem unlock_fails (failed : s.unlock h r forced = (s', .failed e)) :
    (∃ reason, e = .aborted (s.txn h).id reason ∧ s' = (s.refuse h reason).1) ∨
      ∃ message, e = .invariantViolation message ∧ s' = s := by
  cases held : (s.txn h).locks.mode? r with
  | none =>
    rw [unlock_not_held held] at failed
    cases failed
    exact .inl ⟨_, rfl, rfl⟩
  | some m =>
    rw [unlock_held held] at failed
    split at failed
    · cases failed
      exact .inl ⟨_, rfl, rfl⟩
    · split at failed
      · cases failed
        exact .inr ⟨_, rfl, rfl⟩
      · split at failed
        · cases failed
        · cases failed
          exact .inr ⟨_, rfl, rfl⟩

/-- What a forced unlock call does when it succeeds. -/
def giveBack (s : Engine) (h : Handle) (r : Resource) (m : Mode) : Engine :=
  ((s.dropLock h r m).grantAndNotify r.key).tally Stats.unlock

theorem unlock_succeeds (done : s.unlock h r true = (s', .done)) :
    ∃ m, (s.txn h).locks.mode? r = some m ∧ s' = s.giveBack h r m := by
  cases held : (s.txn h).locks.mode? r with
  | none =>
    rw [unlock_not_held held] at done
    cases done
  | some m =>
    rw [unlock_held held] at done
    split at done
    · cases done
    · split at done
      · cases done
      · split at done
        · cases done
          exact ⟨m, rfl, rfl⟩
        · cases done

theorem txn_giveBack (known : h < s.txns.size) :
    (s.giveBack h r m).txn h = (s.txn h).forget r m := by
  rw [giveBack, txn_tally, txn_grantAndNotify, txn_dropLock s h known]

/-- It succeeds where nothing speaks against it. -/
theorem unlock_done (held : (s.txn h).locks.mode? r = some m)
    (rowsFirst : r.isTable = true → (s.txn h).locks.hasRowsOn r.tableId = false)
    (has : (s.queue r.key).has (s.txn h).id = true) :
    s.unlock h r true = (s.giveBack h r m, .done) := by
  rw [unlock_held held, if_neg (by simpa using rowsFirst),
    if_neg (c := r.key ∉ s.queues) (not_not.2 (mem_queues_of_has has)), if_pos has]
  simp [giveBack]

/-- A lock breaks no rule when it is given back, if it is held and no row of its table is left. -/
theorem unlock_ne_aborted (held : (s.txn h).locks.mode? r = some m)
    (rowsFirst : r.isTable = true → (s.txn h).locks.hasRowsOn r.tableId = false) :
    (s.unlock h r true).2 ≠ .failed (.aborted who reason) := by
  rw [unlock_held held, if_neg (by simpa using rowsFirst)]
  split
  · exact fun eq => nomatch eq
  · split
    · exact fun eq => nomatch eq
    · exact fun eq => nomatch eq

/-- These are the locks of the transaction, rows before tables. -/
structure Itemizes (s : Engine) (h : Handle) (rs : List Resource) : Prop where
  perm : rs.Perm ((s.txn h).locks.toList.map (·.resource))
  rowsFirst : rs.Pairwise fun a b => a.isTable = true → b.isTable = true

theorem itemizes_locks (complete : w.Complete) (s : Engine) (h : Handle) :
    s.Itemizes h (w.locks s h) :=
  ⟨complete.locks s h, complete.rowsFirst s h⟩

theorem Itemizes.exists_mode? (itemizes : s.Itemizes h rs) (there : r ∈ rs) :
    ∃ m, (s.txn h).locks.mode? r = some m := by
  obtain ⟨l, held, rfl⟩ := List.mem_map.1 (itemizes.perm.mem_iff.1 there)
  exact LockSet.exists_mode? (LockSet.mem_toList.1 held)

/-- No row is left when it is a table's turn. -/
theorem hasRowsOn_eq_false_of_rowsFirst (all : ∀ l ∈ (s.txn h).locks, l.resource ∈ r :: rs)
    (rowsFirst : (r :: rs).Pairwise fun a b => a.isTable = true → b.isTable = true)
    (table : r.isTable = true) : (s.txn h).locks.hasRowsOn r.tableId = false := by
  rw [Bool.eq_false_iff, Ne, LockSet.hasRowsOn_iff]
  rintro ⟨row, m, there⟩
  rcases List.mem_cons.1 (all _ there) with same | later
  · rw [← same] at table
    cases table
  · have tables := (List.pairwise_cons.1 rowsFirst).1 _ later table
    cases tables

theorem Itemizes.rowsFirst_head (itemizes : s.Itemizes h (r :: rs)) (table : r.isTable = true) :
    (s.txn h).locks.hasRowsOn r.tableId = false :=
  hasRowsOn_eq_false_of_rowsFirst
    (fun _ held => itemizes.perm.mem_iff.2 (List.mem_map_of_mem (LockSet.mem_toList.2 held)))
    itemizes.rowsFirst table

/-- Where nothing is listed, nothing is held. -/
theorem Itemizes.locks_eq_empty (itemizes : s.Itemizes h []) : (s.txn h).locks = ∅ :=
  LockSet.eq_empty_iff.2 fun l held => by
    have listed := List.mem_map_of_mem (f := (·.resource)) (LockSet.mem_toList.2 held)
    exact List.not_mem_nil (itemizes.perm.mem_iff.2 listed)

/-- The list is one lock shorter, and so is the record. -/
theorem Itemizes.tail (itemizes : s.Itemizes h (r :: rs)) (there : (⟨r, m⟩ : Lock) ∈ (s.txn h).locks)
    (given : s'.txn h = (s.txn h).forget r m) : s'.Itemizes h rs where
  perm := by
    have shorter := itemizes.perm.trans ((LockSet.perm_forget there).map (·.resource))
    rw [given]
    exact (List.perm_cons r).1 shorter
  rowsFirst := (List.pairwise_cons.1 itemizes.rowsFirst).2

theorem Itemizes.giveBack (itemizes : s.Itemizes h (r :: rs))
    (held : (s.txn h).locks.mode? r = some m) : (s.giveBack h r m).Itemizes h rs :=
  itemizes.tail (LockSet.mem_of_mode? held)
    (txn_giveBack (lt_size_of_mem_locks (LockSet.mem_of_mode? held)))

/-- A list of locks is given back without breaking a rule. -/
theorem Itemizes.releaseEach_ne_aborted (itemizes : s.Itemizes h rs) :
    (releaseEach (fun _ s => s) s h rs).2 ≠ .failed (.aborted who reason) := by
  induction rs generalizing s with
  | nil => exact fun eq => nomatch eq
  | cons r rs ih =>
    obtain ⟨m, held⟩ := itemizes.exists_mode? List.mem_cons_self
    have lawful : (s.unlock h r true).2 ≠ .failed (.aborted who reason) :=
      unlock_ne_aborted held itemizes.rowsFirst_head
    rw [releaseEach]
    split
    · rename_i s₁ done
      obtain ⟨m', held', rfl⟩ := unlock_succeeds done
      exact ih (itemizes.giveBack held')
    · rename_i s₁ e failed
      rwa [failed] at lawful

/-- Giving back locks, while it succeeds, does nothing to the transaction but take them off. -/
theorem releaseEach_status (done : releaseEach (fun _ s => s) s h rs = (s', .done)) :
    s'.txn h = { s.txn h with locks := (s'.txn h).locks } := by
  induction rs generalizing s with
  | nil =>
    cases done
    rfl
  | cons r rs ih =>
    rw [releaseEach] at done
    split at done
    · rename_i s₁ first
      obtain ⟨m, held, rfl⟩ := unlock_succeeds first
      rw [ih done, txn_giveBack (lt_size_of_mem_locks (LockSet.mem_of_mode? held))]
      rfl
    · cases done

/-- Marked committed after that, the transaction is committed and has no lock. -/
theorem txn_committed (known : h < s'.txns.size) (active : (s.txn h).state.isTerminal = false)
    (ended : s'.txn h = { s.txn h with locks := ∅ }) (id : TxnId) :
    ((s'.updateTxn h (·.commit)).retire id).txn h =
      { s.txn h with state := .committed, locks := ∅ } := by
  change (s'.updateTxn h (·.commit)).txn h = _
  rw [txn_updateTxn_self known, ended]
  simp [Transaction.commit, active]

/-- A list of locks is given back up to the first that fails. -/
theorem exists_of_releaseEach_failed (failed : releaseEach (fun _ s => s) s h rs = (s', .failed e)) :
    ∃ (s₁ : Engine) (r : Resource), s₁.unlock h r true = (s', .failed e) := by
  induction rs generalizing s with
  | nil => cases failed
  | cons r rs ih =>
    rw [releaseEach] at failed
    split at failed
    · exact ih failed
    · rename_i s₁ e' first
      cases failed
      exact ⟨s, r, first⟩

/-- The transaction has as many requests in each queue as it has locks there. -/
def Balanced (s : Engine) (h : Handle) : Prop :=
  ∀ k, (s.queue k).requests.countP (·.txn == (s.txn h).id) =
    (s.txn h).locks.toList.countP (·.resource.key == k)

theorem Balanced.has (balanced : s.Balanced h) (held : (s.txn h).locks.mode? r = some m) :
    (s.queue r.key).has (s.txn h).id = true := by
  have there := LockSet.mem_toList.2 (LockSet.mem_of_mode? held)
  have some : 0 < (s.txn h).locks.toList.countP (·.resource.key == r.key) :=
    List.countP_pos_iff.2 ⟨_, there, by simp⟩
  by_contra missing
  rw [← balanced, Queue.has_eq_false_iff.1 (Bool.eq_false_iff.2 missing)] at some
  exact Nat.lt_irrefl 0 some

/-- It has one in each queue at most if the books are right and no call of it sleeps. -/
theorem Books.balanced {tableOf : RowId → TableId} (books : s.Books tableOf)
    (known : h < s.txns.size) (noCall : ¬ s.HasCall h) : s.Balanced h := by
  intro k
  have once : (s.queue k).requests.countP (·.txn == (s.txn h).id) ≤ 1 := by
    have single := List.nodup_iff_count_le_one.1 (books.once k) (s.txn h).id
    rwa [List.count, List.countP_map] at single
  have apart : (s.txn h).locks.toList.countP (·.resource.key == k) ≤ 1 := by
    have nodup : ((s.txn h).locks.toList.map (·.resource.key)).Nodup := by
      refine (List.nodup_map_iff_inj_on (LockSet.nodup_toList _)).2 fun l hl l' hl' same => ?_
      obtain ⟨resource, mode⟩ :=
        books.lock_unique (LockSet.mem_toList.1 hl) (LockSet.mem_toList.1 hl') same
      cases l
      cases l'
      simp_all
    have single := List.nodup_iff_count_le_one.1 nodup k
    rwa [List.count, List.countP_map] at single
  have both : 0 < (s.queue k).requests.countP (·.txn == (s.txn h).id) ↔
      0 < (s.txn h).locks.toList.countP (·.resource.key == k) := by
    simp only [List.countP_pos_iff, beq_iff_eq]
    constructor
    · rintro ⟨x, hx, own⟩
      obtain ⟨h', lt, id, backs⟩ := books.backed k x hx
      obtain rfl : h' = h := books.ids h' h lt known (id.symm.trans own)
      rcases backs with ⟨-, lock⟩ | ⟨v, asleep, mine, -⟩
      · exact ⟨_, LockSet.mem_toList.2 lock, books.placed k x hx⟩
      · exact absurd ⟨v, asleep, mine⟩ noCall
    · rintro ⟨l, held, rfl⟩
      obtain ⟨x, hx, isFor, -⟩ := books.recorded h _ _ (LockSet.mem_toList.1 held)
      exact ⟨x, hx, isFor.txn⟩
  omega

/-- With its last lock goes its last request. -/
theorem Balanced.no_request (balanced : s.Balanced h) (empty : (s.txn h).locks = ∅) (k : QueueKey) :
    (s.queue k).has (s.txn h).id = false := by
  rw [Queue.has_eq_false_iff, balanced, empty, List.countP_eq_zero]
  intro l there
  exact absurd (LockSet.mem_toList.1 there) (LockSet.not_mem_empty l)

/-- Whatever leaves locks and queues alone, but for grants, leaves the balance. -/
theorem Balanced.congr (balanced : s.Balanced h) (id : (s'.txn h).id = (s.txn h).id)
    (locks : (s'.txn h).locks = (s.txn h).locks)
    (queue : ∀ k, s'.queue k = s.queue k ∨ s'.queue k = (s.queue k).grant) : s'.Balanced h := by
  intro k
  rw [id, locks, ← balanced k]
  rcases queue k with same | granted
  · rw [same]
  · rw [granted, Queue.countP_grant]

theorem Balanced.giveBack (balanced : s.Balanced h) (held : (s.txn h).locks.mode? r = some m) :
    (s.giveBack h r m).Balanced h := by
  intro k
  have there := LockSet.mem_of_mode? held
  have before := balanced k
  rw [(LockSet.perm_forget there).countP_eq, List.countP_cons] at before
  have queue : (s.giveBack h r m).queue k =
      if r.key = k then ((s.queue r.key).remove (s.txn h).id).grant else s.queue k := by
    rw [Engine.giveBack, queue_tally, queue_grantAndNotify, queue_dropLock, queue_dropLock]
    by_cases here : r.key = k <;> simp [here]
  rw [queue, txn_giveBack (lt_size_of_mem_locks there)]
  change List.countP (fun x : Request => x.txn == (s.txn h).id) _ =
    ((s.txn h).locks.forget r m).1.toList.countP _
  by_cases here : r.key = k
  · rw [if_pos here, Queue.countP_grant, Queue.requests_remove]
    rw [countP_eraseP, here, before]
    simp [here]
  · rw [if_neg here]
    simpa [here] using before

theorem Balanced.unlock (balanced : s.Balanced h) (itemizes : s.Itemizes h (r :: rs))
    (held : (s.txn h).locks.mode? r = some m) : s.unlock h r true = (s.giveBack h r m, .done) :=
  unlock_done held itemizes.rowsFirst_head (balanced.has held)

/-- Giving back all locks succeeds, and leaves the transaction as it is otherwise. -/
theorem Balanced.releaseEach_done (balanced : s.Balanced h) (itemizes : s.Itemizes h rs) :
    ∃ s', releaseEach (fun _ s => s) s h rs = (s', .done) ∧
      s'.txn h = { s.txn h with locks := ∅ } ∧ s'.Balanced h ∧
      s'.txns.size = s.txns.size ∧ s'.active = s.active := by
  induction rs generalizing s with
  | nil =>
    refine ⟨s, rfl, ?_, balanced, rfl, rfl⟩
    rw [← itemizes.locks_eq_empty]
  | cons r rs ih =>
    obtain ⟨m, held⟩ := itemizes.exists_mode? List.mem_cons_self
    obtain ⟨s', done, ended, balanced', size, active⟩ :=
      ih (balanced.giveBack held) (itemizes.giveBack held)
    rw [releaseEach, balanced.unlock itemizes held]
    refine ⟨s', done, ?_, balanced', size.trans (size_updateTxn ..), active⟩
    rw [ended, txn_giveBack (lt_size_of_mem_locks (LockSet.mem_of_mode? held))]
    rfl

end Engine

end TwoPhaseLocking

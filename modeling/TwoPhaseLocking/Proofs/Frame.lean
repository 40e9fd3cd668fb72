import TwoPhaseLocking.Proofs.Paths
import TwoPhaseLocking.Proofs.Queue

/-! # What moves leave alone

Only a mark changes more of a transaction than its locks, only a lock call adds to the
calls asleep and to the queues, and only a lock call registers anybody. Locks are added by calls
that return.
-/

namespace TwoPhaseLocking

/-- The lock call that joins a queue. -/
def Move.call? : Move → Option LockCall
  | join c | swap c _ => some c
  | _ => none

namespace Engine

variable {s s' : Engine} {m : Move} {h : Handle}

/-- What a move makes of a transaction that has been begun. -/
theorem Does.txn_eq (does : s.Does m s') (lt : h < s.txns.size) :
    s'.txn h = { s.txn h with locks := (s'.txn h).locks } ∨
      ∃ k, m = .mark h k ∧ s'.txn h = k.apply (s.txn h) := by
  have update {s : Engine} {h' : Handle} {f : Transaction → Transaction}
      (locks : ∀ t, f t = { t with locks := (f t).locks }) :
      (s.updateTxn h' f).txn h = { s.txn h with locks := ((s.updateTxn h' f).txn h).locks } := by
    rw [txn_updateTxn]
    split
    · rename_i mine
      rw [← mine.1]
      exact locks _
    · rfl
  cases does with
  | @begin iso =>
    have old : (s.begin iso).txn h = s.txn h :=
      (txn_push s (Transaction.start s.nextId iso) h).trans (if_neg (Nat.ne_of_lt lt))
    left
    rw [old]
  | @adopt id iso =>
    have old : (s.adopt id iso).txn h = s.txn h :=
      (txn_push s (Transaction.start id iso) h).trans (if_neg (Nat.ne_of_lt lt))
    left
    rw [old]
  | @mark h' k =>
    by_cases mine : h' = h
    · subst mine
      refine .inr ⟨k, rfl, ?_⟩
      rw [txn_updateTxn_self lt]
    · left
      rw [txn_updateTxn_of_ne (Ne.symm mine)]
  | register =>
    left
    rw [txn_register]
  | unregister | retire | join | notify | quit | doze => exact .inl rfl
  | swap | give | take => exact .inl (update fun _ => rfl)
  | side alike =>
    left
    rw [txn, alike.txns]
    rfl

theorem Does.id_eq (does : s.Does m s') (lt : h < s.txns.size) : (s'.txn h).id = (s.txn h).id := by
  rcases does.txn_eq lt with eq | ⟨k, -, eq⟩
  · rw [eq]
  · rw [eq, Mark.id_apply]

theorem Does.size_le (does : s.Does m s') : s.txns.size ≤ s'.txns.size := by
  cases does with
  | begin | adopt => exact Nat.le_trans (Nat.le_succ _) (Nat.le_of_eq (Array.size_push _).symm)
  | mark | swap | give | take => exact Nat.le_of_eq (size_updateTxn _ _ _).symm
  | register => exact Nat.le_of_eq (by rw [txns_register])
  | unregister | retire | join | notify | quit | doze => exact Nat.le_refl _
  | side alike => exact Nat.le_of_eq (by rw [alike.txns])

theorem size_le_of_path {ok : Engine → Move → Prop} (path : Path ok s s') :
    s.txns.size ≤ s'.txns.size :=
  path.keeps (P := fun s' => s.txns.size ≤ s'.txns.size)
    (fun _ _ _ le does _ => Nat.le_trans le does.size_le) (Nat.le_refl _)

/-- A transaction is there for its client until he lets go of it. -/
theorem Does.isUsable (does : s.Does m s') (usable : s.isUsable h = true)
    (keeps : m ≠ .mark h .letGo) : s'.isUsable h = true := by
  have lt := lt_size_of_isUsable usable
  have lt' : h < s'.txns.size := Nat.lt_of_lt_of_le lt does.size_le
  have same : (s'.txn h).kept = (s.txn h).kept := by
    rcases does.txn_eq lt with eq | ⟨k, rfl, eq⟩
    · rw [eq]
    · rw [eq, Mark.kept_apply]
      rintro rfl
      exact keeps rfl
  simpa [Engine.isUsable, txn, Array.getD_eq_getD_getElem?, lt, lt'] using
    same.trans (kept_of_isUsable usable)

/-- A transaction that is new to a state has just been begun. -/
theorem Does.new_eq (does : s.Does m s') (le : s.txns.size ≤ h) :
    s'.txn h = default ∨ ∃ id iso, s'.txn h = Transaction.start id iso := by
  have pushed (id : TxnId) (iso : Isolation)
      (begun : s'.txn h = if h = s.txns.size then Transaction.start id iso else s.txn h) :
      s'.txn h = default ∨ ∃ id iso, s'.txn h = Transaction.start id iso := by
    rw [begun, txn_of_size_le s h le]
    split
    · exact .inr ⟨id, iso, rfl⟩
    · exact .inl rfl
  have unknown {s : Engine} (le : s.txns.size ≤ h) {p : Prop} : s.txn h = default ∨ p :=
    .inl (txn_of_size_le s h le)
  cases does with
  | @begin iso => exact pushed s.nextId iso (txn_push s _ h)
  | @adopt id iso => exact pushed id iso (txn_push s _ h)
  | mark | swap | give | take => exact unknown (Nat.le_trans (Nat.le_of_eq (size_updateTxn ..)) le)
  | register =>
    rw [txn_register]
    exact unknown le
  | unregister | retire | join | notify | quit | doze => exact unknown le
  | side alike => exact unknown (by rwa [alike.txns])

/-- A transaction that is new to a state grows there. -/
theorem Does.new_growing (does : s.Does m s') (le : s.txns.size ≤ h) :
    (s'.txn h).state = .growing := by
  rcases does.new_eq le with eq | ⟨id, iso, eq⟩
  · rw [eq]
    rfl
  · rw [eq]
    rfl

theorem Does.config_eq (does : s.Does m s') : s'.config = s.config := by
  cases does with
  | register =>
    unfold Engine.register
    split <;> rfl
  | side alike => exact alike.config
  | _ => rfl

/-- Whoever has a call asleep had it before, or has just made it. -/
theorem Does.callers_sub (does : s.Does m s') (there : h ∈ s'.callers) :
    h ∈ s.callers ∨ ∃ c, m.call? = some c ∧ c.handle = h := by
  cases does with
  | begin | adopt | mark | unregister | retire => exact .inl there
  | register => exact .inl (by simpa using there)
  | @join c =>
    rw [callers_grantAndNotify, callers_addSleeper, List.mem_append, List.mem_singleton] at there
    exact there.imp id fun mine => ⟨c, rfl, mine.symm⟩
  | @swap c =>
    rw [callers_grantAndNotify, callers_addSleeper, List.mem_append, List.mem_singleton] at there
    exact there.imp id fun mine => ⟨c, rfl, mine.symm⟩
  | give | notify =>
    rw [callers_grantAndNotify] at there
    exact .inl there
  | @take w xs ys asleep =>
    exact .inl ((callers_rest_sublist asleep).subset there)
  | @quit w xs ys asleep =>
    rw [callers_grantAndNotify] at there
    exact .inl ((callers_rest_sublist asleep).subset there)
  | @doze w xs ys asleep =>
    left
    rw [callers, asleep]
    simpa [callers] using there
  | side alike =>
    rw [callers, alike.sleepers] at there
    exact .inl there

/-- A call joins a queue in no event but its own. -/
theorem lock_of_causes {s₀ : Engine} {e : Event} {c : LockCall} (causes : e.Causes s₀ s m)
    (call : m.call? = some c) : e = .op (.lock c) := by
  cases m with
  | join | swap =>
    cases call
    exact causes.2
  | _ => cases call

/-- Without a lock call nobody has a call asleep who has had none before. -/
theorem Does.hasCall (does : s.Does m s') (plain : m.call? = none) (there : s'.HasCall h) :
    s.HasCall h := by
  rw [hasCall_iff] at there ⊢
  rcases does.callers_sub there with before | ⟨c, call, -⟩
  · exact before
  · rw [plain] at call
    cases call

/-- Whoever is registered was so before, or registers under his own identifier. -/
theorem Does.registry_sub {id : TxnId} (does : s.Does m s') (there : s'.registry[id]? = some h) :
    s.registry[id]? = some h ∨ (s.txn h).id = id ∧ h < s.txns.size := by
  cases does with
  | @register h' usable =>
    unfold Engine.register at there
    split at there
    · exact .inl there
    · rw [Std.ExtTreeMap.getElem?_insert] at there
      split at there
      · rename_i same
        cases there
        exact .inr ⟨Std.LawfulEqOrd.eq_of_compare same, lt_size_of_isUsable usable⟩
      · exact .inl there
  | @unregister id' | @retire id' =>
    left
    change (s.registry.erase id')[id]? = some h at there
    rw [Std.ExtTreeMap.getElem?_erase] at there
    split at there
    · cases there
    · exact there
  | side alike =>
    rw [alike.registry] at there
    exact .inl there
  | _ => exact .inl there

/-- Whoever is registered stays so, unless he is struck off or another comes in his place who has
the same identifier. -/
theorem Does.registry_keeps {id : TxnId} (does : s.Does m s') (there : s.registry[id]? = some h) :
    s'.registry[id]? = some h ∨ m = .unregister id ∨ m = .retire id ∨
      ∃ h' < s.txns.size, (s.txn h').id = id ∧ s'.registry[id]? = some h' := by
  have erased {id' : TxnId} (other : id' ≠ id) : (s.registry.erase id')[id]? = some h := by
    rw [Std.ExtTreeMap.getElem?_erase, if_neg]
    · exact there
    · exact fun same => other (Std.LawfulEqOrd.eq_of_compare same)
  cases does with
  | @register h' usable =>
    unfold Engine.register
    split
    · exact .inl there
    · by_cases own : (s.txn h').id = id
      · refine .inr (.inr (.inr ⟨h', lt_size_of_isUsable usable, own, ?_⟩))
        rw [own]
        exact Std.ExtTreeMap.getElem?_insert_self
      · left
        rw [Std.ExtTreeMap.getElem?_insert, if_neg]
        · exact there
        · exact fun same => own (Std.LawfulEqOrd.eq_of_compare same)
  | @unregister id' =>
    by_cases mine : id' = id
    · exact .inr (.inl (by rw [mine]))
    · exact .inl (erased mine)
  | @retire id' =>
    by_cases mine : id' = id
    · exact .inr (.inr (.inl (by rw [mine])))
    · exact .inl (erased mine)
  | side alike =>
    left
    rw [alike.registry]
    exact there
  | _ => exact .inl there

/-- Whatever a transaction has on record it had before, or a call of it has returned with it. -/
theorem Does.locks_sub {l : Lock} (does : s.Does m s') (there : l ∈ (s'.txn h).locks) :
    l ∈ (s.txn h).locks ∨
      ∃ w ∈ s.sleepers, m = .take w ∧ w.handle = h ∧ (s.txn h).isAborted = false ∧
        l = ⟨w.resource, w.mode⟩ := by
  have begun {t : Transaction} (empty : t.locks = ∅)
      (there : l ∈ (txn { s with txns := s.txns.push t } h).locks) : l ∈ (s.txn h).locks := by
    rw [txn_push] at there
    split at there
    · rw [empty] at there
      exact absurd there (LockSet.not_mem_empty l)
    · exact there
  cases does with
  | begin | adopt => exact .inl (begun rfl there)
  | @mark h' k =>
    rw [proj_updateTxn s h' k.apply (·.locks) k.locks_apply] at there
    exact .inl there
  | register =>
    rw [txn_register] at there
    exact .inl there
  | unregister | retire | join | notify | quit | doze => exact .inl there
  | swap =>
    rw [txn_grantAndNotify, txn_addSleeper, swapRequest, mem_locks_updateTxn_forget,
      txn_updateQueue] at there
    exact .inl there.1
  | give =>
    rw [txn_grantAndNotify, dropLock, mem_locks_updateTxn_forget, txn_updateQueue] at there
    exact .inl there.1
  | @take w xs ys asleep granted live =>
    rw [txn_updateTxn, txn_updateQueue, txn_updateQueue] at there
    split at there
    · rename_i mine
      rw [mine.1] at there live
      rcases LockSet.eq_or_mem_of_mem_record there with rfl | there
      · exact .inr ⟨w, mem_split asleep, rfl, mine.1, live, rfl⟩
      · exact .inl there
    · exact .inl there
  | side alike =>
    rw [txn, alike.txns] at there
    exact .inl there

/-- Whatever a transaction has on record it keeps until it gives it back, or up for something more. -/
theorem Does.locks_keeps {l : Lock} (does : s.Does m s') (there : l ∈ (s.txn h).locks) :
    l ∈ (s'.txn h).locks ∨ m = .give h l.resource l.mode ∨
      ∃ c, m = .swap c l.mode ∧ c.handle = h ∧ c.resource = l.resource := by
  have begun (t : Transaction) : l ∈ (txn { s with txns := s.txns.push t } h).locks := by
    rw [txn_push, if_neg (Nat.ne_of_lt (lt_size_of_mem_locks there))]
    exact there
  cases does with
  | begin | adopt => exact .inl (begun _)
  | @mark h' k =>
    rw [proj_updateTxn s h' k.apply (·.locks) k.locks_apply]
    exact .inl there
  | register =>
    rw [txn_register]
    exact .inl there
  | unregister | retire | join | notify | quit | doze => exact .inl there
  | @swap c old =>
    rw [txn_grantAndNotify, txn_addSleeper, swapRequest, mem_locks_updateTxn_forget,
      txn_updateQueue]
    by_cases given : c.handle = h ∧ l = ⟨c.resource, old⟩
    · obtain ⟨own, rfl⟩ := given
      exact .inr (.inr ⟨c, rfl, own, rfl⟩)
    · exact .inl ⟨there, fun own eq => given ⟨own.symm, eq⟩⟩
  | @give h' r old =>
    rw [txn_grantAndNotify, dropLock, mem_locks_updateTxn_forget, txn_updateQueue]
    by_cases given : h' = h ∧ l = ⟨r, old⟩
    · obtain ⟨rfl, rfl⟩ := given
      exact .inr (.inl rfl)
    · exact .inl ⟨there, fun own eq => given ⟨own.symm, eq⟩⟩
  | @take w =>
    rw [txn_updateTxn]
    split
    · rename_i mine
      rw [mine.1]
      exact .inl (LockSet.mem_record_of_mem there)
    · exact .inl there
  | side alike =>
    rw [txn, alike.txns]
    exact .inl there

theorem changes_updateQueue {joins : Request → Prop} {q : Queue} {f : Queue → Queue} {k : QueueKey}
    (k' : QueueKey) (each : ∀ q : Queue, q.Change joins (f q)) (changes : q.Changes joins (s.queue k)) :
    q.Changes joins ((s.updateQueue k' f).queue k) := by
  rw [queue_updateQueue]
  split
  · rename_i same
    rw [same]
    exact changes.tail (each _)
  · exact changes

theorem changes_grantAndNotify {joins : Request → Prop} {q : Queue} {k : QueueKey} (k' : QueueKey)
    (changes : q.Changes joins (s.queue k)) : q.Changes joins ((s.grantAndNotify k').queue k) :=
  changes_updateQueue k' (fun _ => .grant) changes

/-- Only lock calls join a queue. -/
theorem Does.changes (does : s.Does m s') (k : QueueKey) : (s.queue k).Changes
    (fun r => ∃ c, m.call? = some c ∧ r = c.request (s.txn c.handle).id) (s'.queue k) := by
  cases does with
  | begin | adopt | mark | unregister | retire | doze => exact .refl
  | register =>
    rw [queue_register]
    exact .refl
  | side alike =>
    rw [alike.queue]
    exact .refl
  | @join c =>
    apply changes_grantAndNotify
    rw [queue_addSleeper, pushRequest]
    exact changes_updateQueue _ (fun _ => .push ⟨c, rfl, rfl⟩) .refl
  | @swap c old =>
    apply changes_grantAndNotify
    rw [queue_addSleeper, swapRequest, queue_updateTxn, queue_updateQueue]
    split
    · rename_i same
      rw [same]
      exact Relation.ReflTransGen.tail (.single .remove) (.insertUpgrade ⟨c, rfl, rfl⟩)
    · exact .refl
  | @give h r m =>
    apply changes_grantAndNotify
    rw [dropLock, queue_updateTxn]
    exact changes_updateQueue _ (fun _ => .remove) .refl
  | notify => exact changes_grantAndNotify _ .refl
  | @take w xs ys =>
    rw [queue_updateTxn]
    exact changes_updateQueue (s := { s with sleepers := xs ++ ys }) _ (fun _ => .clearUpgrading) .refl
  | @quit w xs ys =>
    apply changes_grantAndNotify
    apply changes_updateQueue _ fun _ => .remove
    exact changes_updateQueue (s := { s with sleepers := xs ++ ys }) _ (fun _ => .clearUpgrading) .refl

end Engine

end TwoPhaseLocking

import TwoPhaseLocking.Proofs.Deadlock
import TwoPhaseLocking.Proofs.Release

/-! # Transactions end with nothing left

A commit or an abort gives back the locks of its transaction one by one. As the books are right
none of these unlock calls fails, so all the locks are given back. No call of the transaction brings
a lock afterwards, and so whoever has committed has none.
-/

namespace TwoPhaseLocking

/-- The moves by which a transaction gives back its locks. -/
def Move.Giving (h : Handle) : Move → Prop
  | give h' .. => h' = h
  | notify _ | side => True
  | _ => False

namespace Engine

variable {tableOf : RowId → TableId} {config : Config} {s s' : Engine} {a : Move} {h : Handle}
  {r : Resource} {rs : List Resource} {w : Walk} {e : Event}

/-- These are the locks of the transaction, rows before tables. -/
structure Owes (s : Engine) (h : Handle) (rs : List Resource) : Prop where
  held : ∀ r ∈ rs, ∃ m, (⟨r, m⟩ : Lock) ∈ (s.txn h).locks
  all : ∀ l ∈ (s.txn h).locks, l.resource ∈ rs
  nodup : rs.Nodup
  rowsFirst : rs.Pairwise fun a b => a.isTable = true → b.isTable = true

theorem Books.owes (books : s.Books tableOf) (complete : w.Complete) (h : Handle) :
    s.Owes h (w.locks s h) where
  held r there := by
    obtain ⟨l, hl, rfl⟩ := List.mem_map.1 ((complete.locks s h).mem_iff.1 there)
    exact ⟨l.mode, LockSet.mem_toList.1 hl⟩
  all l there := (complete.locks s h).mem_iff.2 (List.mem_map_of_mem (LockSet.mem_toList.2 there))
  nodup := by
    rw [(complete.locks s h).nodup_iff]
    refine (List.nodup_map_iff_inj_on ?_).2 fun l hl l' hl' same => ?_
    · exact (s.txn h).locks.nodup_toList
    · have unique := books.lock_unique (LockSet.mem_toList.1 hl) (LockSet.mem_toList.1 hl')
        (congrArg Resource.key same)
      cases l
      cases l'
      simp_all
  rowsFirst := complete.rowsFirst s h

/-- The moves by which a transaction is ended. Where it is marked committed it has given back
everything, and no call of it sleeps. -/
def Ending (h : Handle) (s : Engine) : Move → Prop
  | .give h' .. | .mark h' (.abort _) => h' = h
  | .mark h' .commit => h' = h ∧ (s.txn h).locks = ∅ ∧ ¬ s.HasCall h
  | .notify _ | .retire _ | .side => True
  | _ => False

theorem Ending.of_giving (giving : a.Giving h) : s.Ending h a := by
  cases a with
  | give => exact giving
  | notify | side => trivial
  | _ => exact giving.elim

theorem ending_of_giving (path : Path (fun _ a => a.Giving h) s s') : Path (·.Ending h) s s' :=
  path.mono fun _ _ => Ending.of_giving

/-- One lock less to give back. -/
theorem Owes.tail (owes : s.Owes h (r :: rs)) (books : s.Books tableOf) {m : Mode}
    (there : (⟨r, m⟩ : Lock) ∈ (s.txn h).locks) (given : s'.txn h = (s.txn h).forget r m) :
    s'.Owes h rs := by
  obtain ⟨first, rest⟩ := List.nodup_cons.1 owes.nodup
  constructor
  case held =>
    intro r' there'
    obtain ⟨m', held⟩ := owes.held r' (List.mem_cons_of_mem _ there')
    refine ⟨m', ?_⟩
    rw [given]
    refine LockSet.mem_forget.2 ⟨?_, held⟩
    rintro ⟨⟩
    exact first there'
  case all =>
    intro l left
    rw [given] at left
    obtain ⟨other, before⟩ := LockSet.mem_forget.1 left
    refine (List.mem_cons.1 (owes.all l before)).resolve_left fun same => other ?_
    have unique := books.lock_unique before there (congrArg Resource.key same)
    cases l
    simp_all
  case nodup => exact rest
  case rowsFirst => exact (List.pairwise_cons.1 owes.rowsFirst).2

theorem Owes.rowsFirst_head (owes : s.Owes h (r :: rs)) (table : r.isTable = true) :
    (s.txn h).locks.hasRowsOn r.tableId = false :=
  hasRowsOn_eq_false_of_rowsFirst owes.all owes.rowsFirst table

/-- The next lock is given back, and the others are still to be. -/
theorem Books.unlock_next (books : s.Books tableOf) (owes : s.Owes h (r :: rs)) :
    ∃ m s', (s.txn h).locks.mode? r = some m ∧
      s' = ((s.dropLock h r m).grantAndNotify r.key).tally Stats.unlock ∧
      s.unlock h r true = (s', .done) ∧ s'.Books tableOf ∧ s'.Owes h rs ∧
      s'.txn h = (s.txn h).forget r m ∧ Path (fun _ a => a.Giving h) s s' := by
  obtain ⟨m', there⟩ := owes.held r List.mem_cons_self
  obtain ⟨m, held⟩ := LockSet.exists_mode? there
  have given : Does s (.give h r m) ((s.dropLock h r m).grantAndNotify r.key) :=
    .give held owes.rowsFirst_head (books.has_of_mem there)
  have counted := Does.side (.tally (s := (s.dropLock h r m).grantAndNotify r.key) Stats.unlock)
  have txn : ((s.dropLock h r m).grantAndNotify r.key).txn h = (s.txn h).forget r m := by
    rw [txn_grantAndNotify, txn_dropLock s h (lt_size_of_mem_locks there)]
  exact ⟨m, _, held, rfl, unlock_done held owes.rowsFirst_head (books.has_of_mem there),
    (books.move given trivial).move counted trivial,
    owes.tail books (LockSet.mem_of_mode? held) txn, txn,
    (Path.move given rfl).next counted trivial⟩

/-- Giving back all locks of a transaction succeeds, and leaves it as it is otherwise. -/
theorem Books.releaseEach_done (books : s.Books tableOf) (owes : s.Owes h rs) :
    ∃ s', releaseEach (fun _ s => s) s h rs = (s', .done) ∧
      s'.txn h = { s.txn h with locks := ∅ } ∧ Path (fun _ a => a.Giving h) s s' := by
  induction rs generalizing s with
  | nil =>
    have none : (s.txn h).locks = ∅ :=
      LockSet.eq_empty_iff.2 fun l there => List.not_mem_nil (owes.all l there)
    refine ⟨s, rfl, ?_, .refl s⟩
    rw [← none]
  | cons r rs ih =>
    obtain ⟨m, s₁, -, -, unlocked, books', owes', txn, first⟩ := books.unlock_next owes
    obtain ⟨s', done, ended, path⟩ := ih books' owes'
    rw [releaseEach, unlocked]
    refine ⟨s', done, ?_, first.trans path⟩
    rw [ended, txn]
    rfl

theorem Ending.call? (ending : s.Ending h a) : a.call? = none := by
  cases a with
  | join | swap => exact ending.elim
  | _ => rfl

theorem hasCall_of_ending {h' : Handle} (path : Path (·.Ending h) s s') (there : s'.HasCall h') :
    s.HasCall h' := by
  refine path.keeps (P := fun s' => s'.HasCall h' → s.HasCall h') ?_ id there
  exact fun _ _ _ before does ending there => before (does.hasCall ending.call? there)

/-- A commit of a running transaction gives back its locks, and then marks it committed. -/
theorem Books.commit_released (books : s.Books tableOf) (complete : w.Complete)
    (active : (s.txn h).state.isTerminal = false) :
    ∃ s', s.commit w h = ((s'.updateTxn h (·.commit)).retire (s.txn h).id, .done) ∧
      s'.txn h = { s.txn h with locks := ∅ } ∧ Path (fun _ a => a.Giving h) s s' := by
  obtain ⟨s₁, done, ended, given⟩ := books.releaseEach_done (books.owes complete h)
  refine ⟨s₁, ?_, ended, given⟩
  simp [commit, commitWith, active, done, ended]

/-- A commit of a running transaction succeeds, and leaves it without locks. -/
theorem Books.commit_done (books : s.Books tableOf) (complete : w.Complete)
    (active : (s.txn h).state.isTerminal = false) (noCall : ¬ s.HasCall h) :
    ∃ s', s.commit w h = (s', .done) ∧ (s'.txn h).locks = ∅ ∧ Path (·.Ending h) s s' := by
  obtain ⟨s₁, done, ended, given⟩ := books.commit_released complete active
  have path := ending_of_giving given
  have empty : (s₁.txn h).locks = ∅ := by rw [ended]
  have noCall' : ¬ s₁.HasCall h := fun there =>
    noCall (hasCall_of_ending path there)
  refine ⟨(s₁.updateTxn h (·.commit)).retire (s.txn h).id, done, ?_, ?_⟩
  · change ((s₁.updateTxn h (·.commit)).txn h).locks = ∅
    rw [proj_updateTxn s₁ h (·.commit) (·.locks) (·.locks_commit), empty]
  · exact (path.next (.mark (m := .commit)) ⟨rfl, empty, noCall'⟩).next .retire trivial

theorem Books.abortAndWake (books : s.Books tableOf) : (s.abortAndWake w h).Books tableOf := by
  have fair : Path (fun s a => s.Fair tableOf a) s (s.abortAndWake w h) :=
    abortAndWake_path w trivial fun _ _ => trivial
  exact fair.keeps (fun _ _ _ books => books.move) books

/-- An abort of a transaction that has not committed wakes its calls, and then gives back its
locks. -/
theorem Books.abort_released (books : s.Books tableOf) (complete : w.Complete)
    (known : h < s.txns.size) (unfinished : (s.txn h).state ≠ .committed) :
    ∃ s', s.abort w h = (s'.retire (s.txn h).id, .done) ∧
      s'.txn h = { (s.txn h).abort none with locks := ∅ } ∧
      Path (fun _ a => a.Giving h) (s.abortAndWake w h) s' := by
  have books' := books.abortAndWake (w := w) (h := h)
  obtain ⟨s₁, done, ended, given⟩ := books'.releaseEach_done (books'.owes complete h)
  rw [txn_abortAndWake known] at ended
  refine ⟨s₁, ?_, ended, given⟩
  simp [abort, releaseAll, unfinished, done]

/-- An abort of a transaction that has not committed succeeds, and leaves it without locks. -/
theorem Books.abort_done (books : s.Books tableOf) (complete : w.Complete)
    (known : h < s.txns.size) (unfinished : (s.txn h).state ≠ .committed) :
    ∃ s', s.abort w h = (s', .done) ∧ (s'.txn h).isAborted = true ∧ (s'.txn h).locks = ∅ ∧
      Path (·.Ending h) s s' := by
  have woken : Path (·.Ending h) s (s.abortAndWake w h) :=
    abortAndWake_path w rfl fun _ _ => trivial
  obtain ⟨s₁, done, ended, given⟩ := books.abort_released complete known unfinished
  refine ⟨s₁.retire (s.txn h).id, done, ?_, ?_,
    (woken.trans (ending_of_giving given)).next .retire trivial⟩
  · change (s₁.txn h).isAborted = true
    rw [ended]
    exact isAborted_abort unfinished none
  · change (s₁.txn h).locks = ∅
    rw [ended]

/-- Whoever has committed has given back everything. -/
structure Cleared (tableOf : RowId → TableId) (s : Engine) : Prop where
  books : s.Books tableOf
  enrolled : s.Enrolled
  cleared : ∀ h, (s.txn h).state = .committed → (s.txn h).locks = ∅

/-- What that relies on: nobody is marked committed who has a lock or a call asleep. -/
structure KeepsCleared (tableOf : RowId → TableId) (s : Engine) (a : Move) : Prop where
  fair : s.Fair tableOf a
  calm : s.Calm a
  clears : ∀ h, a = .mark h .commit → (s.txn h).locks = ∅
  sets : ∀ h state, a ≠ .mark h (.setState state)

theorem cleared_fresh (config : Config) : (fresh config).Cleared tableOf where
  books := books_fresh config
  enrolled := enrolled_fresh config
  cleared h committed := by
    rw [txn_of_size_le _ h (by simp [fresh])] at committed
    cases committed

theorem Cleared.move (cleared : s.Cleared tableOf) (does : s.Does a s')
    (keeps : s.KeepsCleared tableOf a) : s'.Cleared tableOf where
  books := cleared.books.move does keeps.fair
  enrolled := cleared.enrolled.move cleared.books does keeps.calm
  cleared h committed := by
    have empty : (s.txn h).locks = ∅ := by
      rcases Nat.lt_or_ge h s.txns.size with lt | le
      · rcases does.txn_eq lt with eq | ⟨k, rfl, eq⟩
        · rw [eq] at committed
          exact cleared.cleared h committed
        · by_contra some
          rw [eq] at committed
          refine Mark.state_apply_ne (fun before => some (cleared.cleared h before)) ?_ ?_ committed
          · rintro rfl
            exact some (keeps.clears h rfl)
          · rintro rfl
            exact keeps.sets h _ rfl
      · rw [does.new_growing le] at committed
        cases committed
    refine LockSet.eq_empty_iff.2 fun l there => ?_
    rcases does.locks_sub there with before | ⟨v, asleep, rfl, rfl, -⟩
    · rw [empty] at before
      exact LockSet.not_mem_empty l before
    · -- whoever takes a lock has had a call asleep, so he has not committed
      have uncommitted := cleared.enrolled.uncommitted v.handle (hasCall_iff.1 ⟨v, asleep, rfl⟩)
      rcases does.txn_eq (cleared.books.known v asleep) with eq | ⟨k, wrong, -⟩
      · rw [eq] at committed
        exact uncommitted committed
      · cases wrong

theorem Cleared.ending (cleared : s.Cleared tableOf) (path : Path (·.Ending h) s s') :
    s'.Cleared tableOf := by
  refine path.keeps (fun s a s' cleared does ending => cleared.move does ?_) cleared
  cases a with
  | mark h' k =>
    cases k with
    | abort => exact ⟨trivial, trivial, by simp, by simp⟩
    | commit =>
      obtain ⟨rfl, empty, noCall⟩ := ending
      exact ⟨trivial, noCall, by simpa using empty, by simp⟩
    | _ => exact ending.elim
  | give | notify | retire | side => exact ⟨trivial, trivial, by simp, by simp⟩
  | _ => exact ending.elim

theorem Cleared.winding (cleared : s.Cleared tableOf) (path : Path (fun _ a => a.Winding) s s') :
    s'.Cleared tableOf := by
  refine path.keeps (fun s a s' cleared does winding => cleared.move does ?_) cleared
  cases a with
  | mark h' k =>
    cases k with
    | abort => exact ⟨trivial, trivial, by simp, by simp⟩
    | _ => exact winding.elim
  | notify | take | quit | doze | side => exact ⟨trivial, trivial, by simp, by simp⟩
  | _ => exact winding.elim

theorem Cleared.commit (cleared : s.Cleared tableOf) (complete : w.Complete)
    (noCall : ¬ s.HasCall h) : (s.commit w h).1.Cleared tableOf := by
  cases active : (s.txn h).state.isTerminal with
  | true => simpa [Engine.commit, commitWith, active] using cleared
  | false =>
    obtain ⟨s', done, -, path⟩ := cleared.books.commit_done complete active noCall
    rw [done]
    exact cleared.ending path

theorem Cleared.after (cleared : s.Cleared tableOf) (complete : w.Complete)
    (fair : e.Fair tableOf s) (undisturbed : e.Undisturbed s) (set : e.SetsNoState) :
    (s.after w e).Cleared tableOf := by
  by_cases commits : ∃ h, e = .op (.commit h)
  · obtain ⟨h, rfl⟩ := commits
    rw [Engine.after, perform]
    split
    · exact cleared.commit complete (undisturbed h rfl)
    · exact cleared
  · refine (after_path w e).keeps (fun s₁ a s₂ cleared does causes => cleared.move does ?_) cleared
    refine ⟨fair_of_causes fair causes, calm_of_causes undisturbed.onlyAborted causes, ?_, ?_⟩
    · rintro h rfl
      exact absurd ⟨h, causes.2⟩ commits
    · rintro h state rfl
      obtain ⟨-, rfl⟩ := causes
      exact set

theorem Reachable.cleared (reach : Reachable config
      (fun s e => e.Fair tableOf s ∧ e.Undisturbed s ∧ e.SetsNoState) s) : s.Cleared tableOf := by
  induction reach with
  | fresh => exact cleared_fresh config
  | next _ complete allowed ih => exact ih.after complete allowed.1 allowed.2.1 allowed.2.2

end Engine

end TwoPhaseLocking

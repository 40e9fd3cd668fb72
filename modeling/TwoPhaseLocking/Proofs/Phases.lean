import TwoPhaseLocking.Proofs.Asleep
import TwoPhaseLocking.Proofs.Deadlock

/-! # The two phases of a transaction

A transaction grows until it gives back a lock that its isolation level counts, and never grows
again. The rules look at the phase when a call begins only, but as nothing is unlocked while the
call sleeps, the phase is still the same when it returns.
-/

namespace TwoPhaseLocking

/-- The mode is one for reading only. -/
def Mode.Reads (m : Mode) : Prop := m = .shared ∨ m = .intentionShared

/-- The mode is one for writing only. -/
def Mode.Writes (m : Mode) : Prop := m = .intentionExclusive ∨ m = .exclusive

namespace Policy

variable {iso : Isolation} {state : TxnState} {m : Mode} {r : Resource} {held cover : Option Mode}

theorem isolation_of_request (lawful : request iso state m r held cover = none) :
    isolation iso state m = none := by
  simp only [request, Option.or_eq_none_iff] at lawful
  exact lawful.1.1.1

/-- While it shrinks, only a read-committed transaction may lock, and only to read. -/
theorem reads_of_isolation (lawful : isolation iso .shrinking m = none) :
    iso = .readCommitted ∧ m.Reads := by
  cases iso <;> cases m <;> simp_all [isolation, Mode.Reads]

/-- A read-uncommitted transaction never locks to read. -/
theorem writes_of_isolation (lawful : isolation .readUncommitted state m = none) : m.Writes := by
  unfold isolation at lawful
  by_contra reads
  simp only [Mode.Writes, not_or] at reads
  simp [reads] at lawful

theorem unlockEndsGrowing_iff :
    unlockEndsGrowing iso m = true ↔ m = .exclusive ∨ m = .shared ∧ iso = .repeatableRead := by
  cases iso <;> simp [unlockEndsGrowing, or_comm]

end Policy

@[simp]
theorem Mark.isolation_apply (k : Mark) (t : Transaction) : (k.apply t).isolation = t.isolation := by
  cases k with
  | abort reason =>
    rw [apply, Transaction.abort]
    split <;> rfl
  | shrink =>
    rw [apply, Transaction.beginShrinking]
    split <;> rfl
  | commit =>
    rw [apply, Transaction.commit]
    split <;> rfl
  | setState | letGo => rfl

/-- Who shrinks after a mark has shrunk before, or begins to. -/
theorem Mark.of_shrinking {k : Mark} {t : Transaction} (shrinking : (k.apply t).state = .shrinking) :
    t.state = .shrinking ∨ k = .shrink ∨ k = .setState .shrinking := by
  rcases k.state_apply t with same | leads
  · exact .inl (same.symm.trans shrinking)
  · rw [shrinking] at leads
    cases k <;> simp_all [state?]

/-- Nothing but being set so makes a transaction grow again. -/
theorem Mark.of_growing {k : Mark} {t : Transaction} (growing : (k.apply t).state = .growing) :
    t.state = .growing ∨ k = .setState .growing := by
  rcases k.state_apply t with same | leads
  · exact .inl (same.symm.trans growing)
  · rw [growing] at leads
    cases k <;> simp_all [state?]

namespace Engine

variable {tableOf : RowId → TableId} {config : Config} {s s' s₀ s₁ : Engine} {m : Move}
  {h : Handle} {w : Walk} {e : Event} {past : List (Engine × Event)}

/-- Calls and locks are in keeping with the phases of their transactions. -/
structure Phased (tableOf : RowId → TableId) (s : Engine) : Prop where
  books : s.Books tableOf
  enrolled : s.Enrolled
  /-- Who sleeps while his transaction shrinks is there to read, under read-committed. -/
  reads : ∀ v ∈ s.sleepers, (s.txn v.handle).state = .shrinking →
    (s.txn v.handle).isolation = .readCommitted ∧ v.mode.Reads
  /-- Calls of a read-uncommitted transaction are there to write. -/
  writes : ∀ v ∈ s.sleepers, (s.txn v.handle).isolation = .readUncommitted → v.mode.Writes
  written : ∀ h, (s.txn h).isolation = .readUncommitted → ∀ l ∈ (s.txn h).locks, l.mode.Writes

/-- What that relies on: no state is set, and nobody begins to shrink who has a call asleep. -/
structure KeepsPhases (tableOf : RowId → TableId) (s : Engine) (m : Move) : Prop where
  fair : s.Fair tableOf m
  calm : s.Calm m
  shrinks : ∀ h, m = .mark h .shrink → ¬ s.HasCall h
  sets : ∀ h state, m ≠ .mark h (.setState state)

theorem phased_fresh (config : Config) : (fresh config).Phased tableOf where
  books := books_fresh config
  enrolled := enrolled_fresh config
  reads := by simp [fresh]
  writes := by simp [fresh]
  written h _ l there := by
    have lt := lt_size_of_mem_locks there
    simp [fresh] at lt

theorem keepsPhases_of_causes (fair : e.Fair tableOf s₀) (undisturbed : e.Undisturbed s₀)
    (set : e.SetsNoState) (causes : e.Causes s₀ s m) : s.KeepsPhases tableOf m where
  fair := fair_of_causes fair causes
  calm := calm_of_causes undisturbed.onlyAborted causes
  shrinks h shrinks := by
    subst shrinks
    obtain ⟨callers, r, rfl⟩ := causes
    rw [hasCall_iff, callers, ← hasCall_iff]
    exact undisturbed h rfl
  sets h state sets := by
    subst sets
    obtain ⟨-, rfl⟩ := causes
    exact set

theorem Does.isolation_eq (does : s.Does m s') (lt : h < s.txns.size) :
    (s'.txn h).isolation = (s.txn h).isolation := by
  rcases does.txn_eq lt with eq | ⟨k, -, eq⟩
  · rw [eq]
  · rw [eq, Mark.isolation_apply]

/-- A lock call leaves its transaction as it is, but for the lock that it gives up. -/
theorem Does.state_eq {c : LockCall} (does : s.Does m s') (call : m.call? = some c)
    (lt : h < s.txns.size) : (s'.txn h).state = (s.txn h).state := by
  rcases does.txn_eq lt with eq | ⟨k, rfl, -⟩
  · rw [eq]
  · cases call

theorem Does.call_of_sleeper {v : Sleeper} (does : s.Does m s') (call : m.sleeper? = some v.hushed) :
    ∃ c held, m.call? = some c ∧ s.Admits c held ∧ c.handle = v.handle ∧ c.mode = v.mode := by
  cases does with
  | join admitted | swap admitted =>
    obtain ⟨-, handle, mode, -⟩ := LockCall.eq_of_sleeper (Option.some.inj call)
    exact ⟨_, _, rfl, admitted, handle, mode⟩
  | _ => cases call

theorem Phased.move (phased : s.Phased tableOf) (does : s.Does m s')
    (keeps : s.KeepsPhases tableOf m) : s'.Phased tableOf where
  books := phased.books.move does keeps.fair
  enrolled := phased.enrolled.move phased.books does keeps.calm
  reads v' there shrinking := by
    rcases does.sleeper phased.books keeps.fair there with ⟨v, asleep, sleepsOn⟩ | call
    · obtain ⟨-, handle, mode, -⟩ := Sleeper.eq_of_hushed sleepsOn.same
      have known := phased.books.known v asleep
      rw [handle] at shrinking ⊢
      rw [mode, does.isolation_eq known]
      refine phased.reads v asleep ?_
      rcases does.txn_eq known with eq | ⟨k, rfl, eq⟩
      · rwa [eq] at shrinking
      · rw [eq] at shrinking
        rcases Mark.of_shrinking shrinking with before | rfl | rfl
        · exact before
        · exact absurd ⟨v, asleep, rfl⟩ (keeps.shrinks _ rfl)
        · exact absurd rfl (keeps.sets _ _)
    · obtain ⟨c, held, join, admitted, handle, mode⟩ := does.call_of_sleeper call
      rw [← handle, does.state_eq join admitted.known] at shrinking
      rw [← handle, ← mode, does.isolation_eq admitted.known]
      have lawful := Policy.isolation_of_request admitted.lawful
      rw [shrinking] at lawful
      exact Policy.reads_of_isolation lawful
  writes v' there uncommitted := by
    rcases does.sleeper phased.books keeps.fair there with ⟨v, asleep, sleepsOn⟩ | call
    · obtain ⟨-, handle, mode, -⟩ := Sleeper.eq_of_hushed sleepsOn.same
      rw [handle, does.isolation_eq (phased.books.known v asleep)] at uncommitted
      rw [mode]
      exact phased.writes v asleep uncommitted
    · obtain ⟨c, held, -, admitted, handle, mode⟩ := does.call_of_sleeper call
      rw [← handle, does.isolation_eq admitted.known] at uncommitted
      have lawful := Policy.isolation_of_request admitted.lawful
      rw [uncommitted] at lawful
      rw [← mode]
      exact Policy.writes_of_isolation lawful
  written h uncommitted l there := by
    rcases does.locks_sub there with before | ⟨v, asleep, -, rfl, -, rfl⟩
    · rw [does.isolation_eq (lt_size_of_mem_locks before)] at uncommitted
      exact phased.written h uncommitted l before
    · rw [does.isolation_eq (phased.books.known v asleep)] at uncommitted
      exact phased.writes v asleep uncommitted

/-- From one state to the next a transaction takes nothing more, unless to read under
read-committed, and does not grow again. -/
structure Wanes (s : Engine) (h : Handle) (s' : Engine) : Prop where
  id : (s'.txn h).id = (s.txn h).id
  isolation : (s'.txn h).isolation = (s.txn h).isolation
  grown : (s'.txn h).state ≠ .growing
  locks : ∀ l ∈ (s'.txn h).locks, l ∈ (s.txn h).locks ∨
    (s.txn h).isolation = .readCommitted ∧ l.mode.Reads
  requests : ∀ k, ∀ y ∈ (s'.queue k).requests, y.txn = (s.txn h).id →
    (∃ x ∈ (s.queue k).requests, x.GrownTo y) ∨
      (s.txn h).isolation = .readCommitted ∧ y.mode.Reads

theorem Wanes.refl (grown : (s.txn h).state ≠ .growing) : s.Wanes h s where
  id := rfl
  isolation := rfl
  grown := grown
  locks _ there := .inl there
  requests _ y hy _ := .inl ⟨y, hy, .refl y⟩

theorem Wanes.trans (first : s.Wanes h s₁) (second : s₁.Wanes h s') : s.Wanes h s' where
  id := second.id.trans first.id
  isolation := second.isolation.trans first.isolation
  grown := second.grown
  locks l there := by
    rcases second.locks l there with before | new
    · exact first.locks l before
    · rw [first.isolation] at new
      exact .inr new
  requests k y hy own := by
    rw [← first.id] at own
    rcases second.requests k y hy own with ⟨x, hx, grown⟩ | new
    · rw [grown.same.1, first.id] at own
      refine (first.requests k x hx own).imp (fun ⟨z, hz, grown'⟩ => ⟨z, hz, grown'.trans grown⟩) ?_
      rw [grown.same.2.1]
      exact fun new => new
    · rw [first.isolation] at new
      exact .inr new

theorem lt_size_of_grown (grown : (s.txn h).state ≠ .growing) : h < s.txns.size :=
  lt_size_of_txn (p := fun t => t.state ≠ .growing) grown (by decide)

/-- A transaction that has grown and is still running shrinks. -/
theorem shrinking_of_active {t : Transaction} (grown : t.state ≠ .growing)
    (active : t.state.isTerminal = false) : t.state = .shrinking := by
  cases state : t.state <;> simp_all [TxnState.isTerminal]

theorem Does.wanes (does : s.Does m s') (phased : s.Phased tableOf)
    (keeps : s.KeepsPhases tableOf m) (grown : (s.txn h).state ≠ .growing) : s.Wanes h s' where
  id := does.id_eq (lt_size_of_grown grown)
  isolation := does.isolation_eq (lt_size_of_grown grown)
  grown growing := by
    rcases does.txn_eq (lt_size_of_grown grown) with eq | ⟨k, rfl, eq⟩
    · rw [eq] at growing
      exact grown growing
    · rw [eq] at growing
      rcases Mark.of_growing growing with before | rfl
      · exact grown before
      · exact keeps.sets _ _ rfl
  locks l there := by
    rcases does.locks_sub there with before | ⟨v, asleep, -, rfl, live, rfl⟩
    · exact .inl before
    · have uncommitted := phased.enrolled.uncommitted v.handle (hasCall_iff.1 ⟨v, asleep, rfl⟩)
      have active : (s.txn v.handle).state.isTerminal = false := by
        cases state : (s.txn v.handle).state <;>
          simp_all [TxnState.isTerminal, Transaction.isAborted]
      exact .inr (phased.reads v asleep (shrinking_of_active grown active))
  requests k y hy own := by
    obtain ⟨x, hx | ⟨c, call, rfl⟩, growny⟩ := (does.changes k).exists_mem hy
    · exact .inl ⟨x, hx, growny⟩
    · obtain ⟨held, admitted⟩ := does.admits call
      obtain rfl : c.handle = h := phased.books.ids _ _ admitted.known (lt_size_of_grown grown)
        (growny.same.1.symm.trans own)
      have lawful := Policy.isolation_of_request admitted.lawful
      rw [shrinking_of_active grown admitted.active] at lawful
      rw [growny.same.2.1]
      exact .inr (Policy.reads_of_isolation lawful)

theorem Phased.after (phased : s.Phased tableOf) (fair : e.Fair tableOf s)
    (undisturbed : e.Undisturbed s) (set : e.SetsNoState) :
    (s.after w e).Phased tableOf ∧
      ∀ h, (s.txn h).state ≠ .growing → s.Wanes h (s.after w e) := by
  refine (after_path w e).keeps (P := fun s' => s'.Phased tableOf ∧
    ∀ h, (s.txn h).state ≠ .growing → s.Wanes h s') ?_ ⟨phased, fun _ grown => .refl grown⟩
  rintro s₁ m s₂ ⟨phased, wanes⟩ does causes
  have keeps := keepsPhases_of_causes fair undisturbed set causes
  exact ⟨phased.move does keeps, fun h grown =>
    (wanes h grown).trans (does.wanes phased keeps (wanes h grown).grown)⟩

/-- Whoever has grown at some time in a run has taken nothing since, unless to read. -/
theorem Run.phased
    (run : Run config (fun s e => e.Fair tableOf s ∧ e.Undisturbed s ∧ e.SetsNoState) past s) :
    s.Phased tableOf ∧
      ∀ before ∈ past, ∀ h, (before.1.txn h).state ≠ .growing → before.1.Wanes h s := by
  induction run with
  | fresh => exact ⟨phased_fresh config, by simp⟩
  | @next past s w e _ _ allowed ih =>
    obtain ⟨phased, wanes⟩ := ih
    obtain ⟨phased', wanes'⟩ := phased.after (w := w) allowed.1 allowed.2.1 allowed.2.2
    refine ⟨phased', fun before there h grown => ?_⟩
    rcases List.mem_cons.1 there with rfl | there
    · exact wanes' h grown
    · have earlier := wanes before there h grown
      exact earlier.trans (wanes' h earlier.grown)

theorem Does.of_shrinking (does : s.Does m s') (shrinking : (s'.txn h).state = .shrinking) :
    (s.txn h).state = .shrinking ∨ m = .mark h .shrink ∨ m = .mark h (.setState .shrinking) := by
  rcases Nat.lt_or_ge h s.txns.size with lt | le
  · rcases does.txn_eq lt with eq | ⟨k, rfl, eq⟩
    · rw [eq] at shrinking
      exact .inl shrinking
    · rw [eq] at shrinking
      rcases Mark.of_shrinking shrinking with before | rfl | rfl
      · exact .inl before
      · exact .inr (.inl rfl)
      · exact .inr (.inr rfl)
  · rw [does.new_growing le] at shrinking
    cases shrinking

/-- Nothing but an unlock call that is not forced makes a transaction shrink. -/
theorem unlock_of_shrinking (set : e.SetsNoState) (before : (s.txn h).state ≠ .shrinking)
    (shrinking : ((s.after w e).txn h).state = .shrinking) : ∃ r, e = .op (.unlock h r false) := by
  by_contra other
  refine (after_path w e).keeps (P := fun s => (s.txn h).state ≠ .shrinking) ?_ before shrinking
  intro s₁ m s₂ before does causes shrinking
  rcases does.of_shrinking shrinking with already | rfl | rfl
  · exact before already
  · exact other causes.2
  · obtain ⟨-, rfl⟩ := causes
    exact set

theorem state_refuse_ne (reason : AbortReason) (before : (s.txn h).state ≠ .shrinking) :
    ((s.refuse h reason).1.txn h).state ≠ .shrinking := by
  rw [refuse, txn_tally, txn_updateTxn]
  split
  · rw [Transaction.state_abort]
    split <;> exact TxnState.noConfusion
  · exact before

/-- The end of an unlock call makes a growing transaction shrink if the lock counts. -/
theorem shrinks_if_ends (known : h < s.txns.size) (before : (s.txn h).state ≠ .shrinking)
    (ends : Bool) :
    ((if ends then s.updateTxn h (·.beginShrinking) else s).txn h).state = .shrinking ↔
      (s.txn h).state = .growing ∧ ends = true := by
  cases ends with
  | false => simpa using before
  | true =>
    rw [if_pos rfl, txn_updateTxn_self known, Transaction.beginShrinking]
    split
    · rename_i growing
      simp [growing]
    · rename_i grown
      simp [before, grown]

/-- An unlock call makes a growing transaction shrink if it succeeds and the lock counts. -/
theorem unlock_shrinks_iff {r : Resource} (before : (s.txn h).state ≠ .shrinking) :
    ((s.unlock h r false).1.txn h).state = .shrinking ↔
      (s.txn h).state = .growing ∧ (s.unlock h r false).2 = .done ∧
        ∃ m, (s.txn h).locks.mode? r = some m ∧
          Policy.unlockEndsGrowing (s.txn h).isolation m = true := by
  cases held : (s.txn h).locks.mode? r with
  | none =>
    rw [unlock_not_held held]
    exact iff_of_false (state_refuse_ne _ before) (by simp)
  | some m =>
    have known := lt_size_of_mem_locks (LockSet.mem_of_mode? held)
    rw [unlock_held held]
    split
    · exact iff_of_false (state_refuse_ne _ before) (by simp)
    · split
      · exact iff_of_false before (by simp)
      · split
        · have given : ((s.dropLock h r m).grantAndNotify r.key).txn h = (s.txn h).forget r m := by
            rw [txn_grantAndNotify, txn_dropLock s h known]
          have known' : h < ((s.dropLock h r m).grantAndNotify r.key).txns.size :=
            known.trans_eq (size_updateTxn ..).symm
          generalize (s.dropLock h r m).grantAndNotify r.key = s₁ at given known' ⊢
          have isolation : (s₁.txn h).isolation = (s.txn h).isolation := by rw [given]; rfl
          have state : (s₁.txn h).state = (s.txn h).state := by rw [given]; rfl
          rw [txn_tally, shrinks_if_ends known' (by rwa [state]), isolation, state]
          simp
        · exact iff_of_false before (by simp)

theorem shrinks_iff (set : e.SetsNoState) (before : (s.txn h).state ≠ .shrinking) :
    ((s.after w e).txn h).state = .shrinking ↔ (s.txn h).state = .growing ∧
      ∃ r m, e = .op (.unlock h r false) ∧ (s.perform w (.unlock h r false)).2 = .unlocked ∧
        (s.txn h).locks.mode? r = some m ∧
          (m = .exclusive ∨ m = .shared ∧ (s.txn h).isolation = .repeatableRead) := by
  constructor
  · intro shrinking
    obtain ⟨r, rfl⟩ := unlock_of_shrinking set before shrinking
    rw [after] at shrinking
    unfold perform at shrinking ⊢
    split at shrinking
    · rename_i usable
      obtain ⟨growing, done, m, held, ends⟩ := (unlock_shrinks_iff before).1 shrinking
      refine ⟨growing, r, m, rfl, ?_, held, Policy.unlockEndsGrowing_iff.1 ends⟩
      rw [if_pos usable, carryOut, Prod.map_snd, done]
      rfl
    · exact absurd shrinking before
  · rintro ⟨growing, r, m, rfl, unlocked, held, ends⟩
    rw [after]
    unfold perform at unlocked ⊢
    split at unlocked
    · rename_i usable
      rw [if_pos usable]
      refine (unlock_shrinks_iff before).2 ⟨growing, ?_, m, held, Policy.unlockEndsGrowing_iff.2 ends⟩
      rw [carryOut, Prod.map_snd] at unlocked
      cases reply : (s.unlock h r false).2 with
      | done => rfl
      | failed error =>
        rw [reply] at unlocked
        cases unlocked
    · cases unlocked

theorem Phased.writes_of_request (phased : s.Phased tableOf)
    (uncommitted : (s.txn h).isolation = .readUncommitted) {k : QueueKey} {x : Request}
    (hx : x ∈ (s.queue k).requests) (own : x.txn = (s.txn h).id) : x.mode.Writes := by
  obtain ⟨h', lt', id, backs⟩ := phased.books.backed k x hx
  have lt := lt_size_of_txn (p := fun t => t.isolation = .readUncommitted) uncommitted (by decide)
  obtain rfl : h' = h := phased.books.ids h' h lt' lt (id.symm.trans own)
  rcases backs with ⟨-, there⟩ | ⟨v, asleep, rfl, -, mode⟩
  · exact phased.written h' uncommitted _ there
  · rw [← mode]
    exact phased.writes v asleep uncommitted

/-- In every run whose clients set no state, and do nothing but abort or let go of a transaction
while a call of it sleeps: a transaction begins to shrink exactly when it gives back, unforced, a
lock that its isolation level counts. From then on it takes nothing, or only to read if it is
read-committed, and it never grows again. And a read-uncommitted transaction asks for nothing but
to write. -/
theorem two_phase
    (run : Run config (fun s e => e.Fair tableOf s ∧ e.Undisturbed s ∧ e.SetsNoState) past s)
    (h : Handle) :
    (∀ w e, e.SetsNoState → (s.txn h).state ≠ .shrinking →
      (((s.after w e).txn h).state = .shrinking ↔ (s.txn h).state = .growing ∧
        ∃ r m, e = .op (.unlock h r false) ∧ (s.perform w (.unlock h r false)).2 = .unlocked ∧
          (s.txn h).locks.mode? r = some m ∧
            (m = .exclusive ∨ m = .shared ∧ (s.txn h).isolation = .repeatableRead))) ∧
    (∀ before ∈ past, (before.1.txn h).state ≠ .growing → before.1.Wanes h s) ∧
    ((s.txn h).isolation = .readUncommitted →
      ∀ k, ∀ x ∈ (s.queue k).requests, x.txn = (s.txn h).id → x.mode.Writes) := by
  obtain ⟨phased, wanes⟩ := run.phased
  exact ⟨fun w e set before => shrinks_iff set before, fun before there => wanes before there h,
    fun uncommitted k x hx own => phased.writes_of_request uncommitted hx own⟩

/-- For instance when a read-committed transaction gives back a row that it has written, and goes
on to read another table. -/
theorem two_phase_read_committed :
    let s := (fresh {}).afterAll .ascending
      [.op (.begin .readCommitted), .op (.lock ⟨1, 0, .intentionExclusive, .table 1⟩),
        .op (.lock ⟨2, 0, .exclusive, .row 1 ⟨0, 0⟩⟩)]
    let s₁ := s.after .ascending (.op (.unlock 0 (.row 1 ⟨0, 0⟩) false))
    let s₂ := s₁.after .ascending (.op (.lock ⟨4, 0, .shared, .table 2⟩))
    (s.txn 0).state = .growing ∧ (s₁.txn 0).state = .shrinking ∧ s₁.Wanes 0 s₂ ∧
      (⟨.table 2, .shared⟩ : Lock) ∉ (s₁.txn 0).locks ∧
      (⟨.table 2, .shared⟩ : Lock) ∈ (s₂.txn 0).locks := by
  intro s s₁ s₂
  have reach : Reachable {}
      (fun s e => e.Fair (fun _ => 1) s ∧ e.Undisturbed s ∧ e.SetsNoState) s :=
    Reachable.afterAll Walk.complete_ascending .fresh (by decide +kernel)
  obtain ⟨past, run⟩ := reach.exists_run
  have growing : (s.txn 0).state = .growing := by decide +kernel
  have shrinks := (two_phase run 0).1 .ascending (.op (.unlock 0 (.row 1 ⟨0, 0⟩) false)) trivial
    (by rw [growing]; decide)
  have shrinking : (s₁.txn 0).state = .shrinking :=
    shrinks.2 ⟨growing, _, .exclusive, rfl, by decide +kernel, by decide +kernel, .inl rfl⟩
  have run₁ := run.next (e := .op (.unlock 0 (.row 1 ⟨0, 0⟩) false)) Walk.complete_ascending
    (by decide +kernel)
  have run₂ := run₁.next (e := .op (.lock ⟨4, 0, .shared, .table 2⟩)) Walk.complete_ascending
    (by decide +kernel)
  refine ⟨growing, shrinking, (two_phase run₂ 0).2.1 _ List.mem_cons_self ?_, by decide +kernel,
    by decide +kernel⟩
  change (s₁.txn 0).state ≠ .growing
  rw [shrinking]
  decide

end Engine

end TwoPhaseLocking

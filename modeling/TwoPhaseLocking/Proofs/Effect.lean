import TwoPhaseLocking.Proofs.Lifecycle

/-! # What a lock call has done when it returns

A lock call gives up what its transaction has on the resource, and may then sleep for any time.
Meanwhile nobody adds to the locks of its transaction, and only an abort takes any away. When the
call returns it has the lock it asked for, or the transaction is aborted and has nothing left on
the resource.
-/

namespace TwoPhaseLocking.Engine

variable {tableOf : RowId → TableId} {config : Config} {s s' s₀ s₁ : Engine} {c : LockCall}
  {h : Handle} {e : Event} {w : Walk} {m : Move} {v : Sleeper}
  {meanwhile : List (Engine × Walk × Event)} {granted : Bool}

/-- One of these events was an abort of the transaction, and gave the lock back. Each event comes
with the state it took place in and the order it walked in. -/
def GivenBack (h : Handle) (l : Lock) (meanwhile : List (Engine × Walk × Event)) : Prop :=
  ∃ s w, (s, w, Event.op (.abort h)) ∈ meanwhile ∧
    l ∈ (s.txn h).locks ∧ l ∉ ((s.after w (.op (.abort h))).txn h).locks

/-- The lock call fell asleep in state `s₀` and has been asleep ever since, while these events took
place, the latest in front. -/
inductive Sleeps (may : Engine → Event → Prop) (s₀ : Engine) (c : LockCall) :
    List (Engine × Walk × Event) → Engine → Prop where
  | start {w : Walk} (asleep : (s₀.perform w (.lock c)).2 = .asleep) :
      Sleeps may s₀ c [] (s₀.perform w (.lock c)).1
  | next {meanwhile : List (Engine × Walk × Event)} {s : Engine} {w : Walk} {e : Event}
      (sleeps : Sleeps may s₀ c meanwhile s) (complete : w.Complete) (allowed : may s e)
      (still : (s.after w e).HasCall c.handle) :
      Sleeps may s₀ c ((s, w, e) :: meanwhile) (s.after w e)

/-- The lock call that was made in state `s₀` has returned, after these events took place while it
slept. -/
inductive Returns (may : Engine → Event → Prop) (s₀ : Engine) (c : LockCall) :
    List (Engine × Walk × Event) → Bool → Engine → Prop where
  | atOnce {w : Walk} {granted : Bool} (returned : (s₀.perform w (.lock c)).2 = .locked granted) :
      Returns may s₀ c [] granted (s₀.perform w (.lock c)).1
  | later {meanwhile : List (Engine × Walk × Event)} {s : Engine} {n : Nat} {done : Completion}
      (sleeps : Sleeps may s₀ c meanwhile s) (returned : (s.wake n).2 = some done)
      (gone : ¬ (s.wake n).1.HasCall c.handle) :
      Returns may s₀ c meanwhile done.granted (s.wake n).1

/-- The call has its lock. The transaction has the resource in this mode and in no other, and all
else that it had in `s₀`. -/
structure Locked (s₀ : Engine) (c : LockCall) (s : Engine) : Prop where
  live : (s.txn c.handle).isAborted = false
  locks : ∀ l, l ∈ (s.txn c.handle).locks ↔
    l = ⟨c.resource, c.mode⟩ ∨ l ∈ (s₀.txn c.handle).locks ∧ l.resource ≠ c.resource
  once : ((s.queue c.resource.key).requests.map (·.txn)).count (s.txn c.handle).id = 1
  granted : ∃ x ∈ (s.queue c.resource.key).requests,
    x.IsFor (s.txn c.handle).id c.resource c.mode ∧ x.granted = true

/-- The call has gone without its lock. The transaction has nothing on the resource, and elsewhere
what it had in `s₀` and no abort has given back. -/
structure Withdrawn (s₀ : Engine) (c : LockCall) (meanwhile : List (Engine × Walk × Event))
    (s : Engine) : Prop where
  aborted : (s.txn c.handle).isAborted = true
  locks : ∀ l, l ∈ (s.txn c.handle).locks ↔ l ∈ (s₀.txn c.handle).locks ∧
    l.resource ≠ c.resource ∧ ¬ GivenBack c.handle l meanwhile
  absent : ∀ x ∈ (s.queue c.resource.key).requests, x.txn ≠ (s.txn c.handle).id

/-- Where the lock is on record, the request is in the queue. -/
theorem Books.locked (books : s.Books tableOf) (live : (s.txn c.handle).isAborted = false)
    (locks : ∀ l, l ∈ (s.txn c.handle).locks ↔
      l = ⟨c.resource, c.mode⟩ ∨ l ∈ (s₀.txn c.handle).locks ∧ l.resource ≠ c.resource) :
    s₀.Locked c s := by
  obtain ⟨x, hx, isFor, granted⟩ := books.recorded c.handle c.resource c.mode
    ((locks ⟨c.resource, c.mode⟩).2 (.inl rfl))
  refine ⟨live, locks, ?_, x, hx, isFor, granted⟩
  rw [← isFor.txn]
  exact (books.once _).count_eq_one hx

/-- The call is on its way into the queue. It has given up what its transaction had on the
resource. -/
structure Enters (s : Engine) (c : LockCall) (s₁ : Engine) : Prop where
  known : c.handle < s₁.txns.size
  live : (s₁.txn c.handle).isAborted = false
  plain : c.resource.isRow = true → c.mode.isIntention = false
  locks : ∀ l, l ∈ (s₁.txn c.handle).locks ↔
    l ∈ (s.txn c.handle).locks ∧ l.resource ≠ c.resource

/-- What a transaction has beside a lock is on other resources. -/
theorem Books.beside (books : s.Books tableOf) {r : Resource} {m : Mode} {l : Lock}
    (held : (s.txn h).locks.mode? r = some m) (there : l ∈ (s.txn h).locks) :
    l ≠ ⟨r, m⟩ ↔ l.resource ≠ r := by
  refine ⟨fun other same => other ?_, fun elsewhere same => elsewhere (by rw [same])⟩
  subst same
  rw [(books.lock_unique (LockSet.mem_of_mode? held) there rfl).2]

theorem enters_push (admitted : s.Admits c none) : s.Enters c (s.pushRequest c) where
  known := admitted.known
  live := isAborted_of_active admitted.active
  plain := admitted.plain
  locks l := by
    refine ⟨fun there => ⟨there, fun same => ?_⟩, And.left⟩
    exact LockSet.mode?_eq_none_iff.1 admitted.holds l.mode (same ▸ there)

theorem Books.enters_swap (books : s.Books tableOf) {old : Mode}
    (admitted : s.Admits c (some old)) : s.Enters c (s.swapRequest c old) where
  known := Nat.lt_of_lt_of_eq admitted.known (size_updateTxn ..).symm
  live := (isAborted_updateTxn_forget ..).trans (isAborted_of_active admitted.active)
  plain := admitted.plain
  locks l := by
    rw [swapRequest, mem_locks_updateTxn_forget, txn_updateQueue]
    exact and_congr_right fun there => by simpa using books.beside admitted.holds there

/-- A call to which the rules have no objection fails, or enters the queue. -/
theorem Books.enqueue_enters (books : s.Books tableOf) {held : Option Mode}
    (admitted : s.Admits c held) : (∃ e, (enqueue (fun _ s => s) s c held).2 = .failed e) ∨
      ∃ s₁, s.Enters c s₁ ∧ enqueue (fun _ s => s) s c held = s₁.await c held := by
  cases held with
  | none =>
    exact .inr ⟨(s.tally Stats.lockRequest).pushRequest c, { enters_push admitted with },
      enqueue_new⟩
  | some old =>
    cases free : (s.queue c.resource.key).upgrading with
    | some other => exact .inl ⟨_, by rw [enqueue_conflict (by simp [free])]; rfl⟩
    | none =>
      cases there : (s.queue c.resource.key).has (s.txn c.handle).id with
      | false => exact .inl ⟨_, by rw [enqueue_missing free there]⟩
      | true =>
        exact .inr ⟨((s.tally Stats.lockRequest).swapRequest c old).tally Stats.upgrade,
          { books.enters_swap admitted with }, enqueue_swap free there⟩

/-- A call that does not fail has its lock already, or enters the queue. -/
theorem Books.lock_enters (books : s.Books tableOf) (usable : s.isUsable c.handle = true) :
    (∃ e, (s.lock c).2 = .failed e) ∨
      ((s.txn c.handle).isAborted = false ∧
        (s.txn c.handle).locks.mode? c.resource = some c.mode ∧
        s.lock c = (s.register c.handle, .returned true)) ∨
      ∃ s₁ held, s.Enters c s₁ ∧ s.lock c = s₁.await c held := by
  rw [lock_eq]
  split
  · exact .inl ⟨_, rfl⟩
  rename_i active
  have active : (s.txn c.handle).state.isTerminal = false := Bool.eq_false_iff.2 active
  split
  · rename_i held
    exact .inr (.inl ⟨isAborted_of_active active, held, rfl⟩)
  rename_i differs
  split
  · exact .inl ⟨_, rfl⟩
  rename_i lawful
  have reaches : s.Reaches c := ⟨usable, active, differs, lawful⟩
  have ready : ((s.register c.handle).updateQueue c.resource.key id).Books tableOf :=
    books.congr (congrArg Array.size (txns_register ..))
      (fun _ => congrArg Transaction.id (txn_register ..))
      (fun _ => congrArg Transaction.locks (txn_register ..)) (by simp) (sleepers_register ..)
  rcases ready.enqueue_enters reaches.admits with failed | ⟨s₁, enters, entered⟩
  · exact .inl failed
  · refine .inr (.inr ⟨s₁, _, ⟨enters.known, enters.live, enters.plain, fun l => ?_⟩, entered⟩)
    rw [enters.locks, txn_updateQueue, txn_register]

/-- A call that has entered the queue takes its lock at once, or sleeps without any. -/
theorem Enters.await (enters : s.Enters c s₁) (held : Option Mode) :
    (s₁.await c held).2 = .returned true ∧
        ((s₁.await c held).1.txn c.handle).isAborted = false ∧
        (∀ l, l ∈ ((s₁.await c held).1.txn c.handle).locks ↔ l = ⟨c.resource, c.mode⟩ ∨
          l ∈ (s.txn c.handle).locks ∧ l.resource ≠ c.resource) ∨
      (s₁.await c held).2 = .asleep ∧ c.sleeper held ∈ (s₁.await c held).1.sleepers ∧
        ∀ l, l ∈ ((s₁.await c held).1.txn c.handle).locks ↔
          l ∈ (s.txn c.handle).locks ∧ l.resource ≠ c.resource := by
  cases granted : ((s₁.queue c.resource.key).grant).isGranted (s₁.txn c.handle).id with
  | true =>
    rw [await_granted enters.live granted]
    refine .inl ⟨rfl, (isAborted_updateTxn_record ..).trans enters.live, fun l => ?_⟩
    refine (mem_locks_updateTxn_record enters.known enters.plain).trans ?_
    simp [enters.locks]
  | false =>
    rw [await_waits enters.live granted]
    exact .inr ⟨rfl, List.mem_append_right _ (List.mem_singleton_self _), enters.locks⟩

/-- The event has added no lock to the transaction, and has taken one away only by aborting it. -/
structure Lessens (s : Engine) (h : Handle) (e : Event) (s' : Engine) : Prop where
  sub : ∀ l ∈ (s'.txn h).locks, l ∈ (s.txn h).locks
  lost : ∀ l ∈ (s.txn h).locks, l ∉ (s'.txn h).locks →
    e = .op (.abort h) ∧ (s'.txn h).isAborted = true

/-- A call that has taken its lock sleeps no longer. -/
theorem Books.awake_of_take (books : s.Books tableOf) (does : s.Does (.take v) s') :
    ¬ s'.HasCall v.handle := by
  cases does with
  | take asleep =>
    rintro ⟨u, there, same⟩
    exact books.others asleep u there same

/-- A move of an event lessens the locks of a transaction with a call asleep, unless it is this call
that takes its lock. -/
theorem Lessens.move (lessens : s₀.Lessens h e s) (does : s.Does m s') (causes : e.Causes s₀ s m)
    (undisturbed : e.Undisturbed s₀) (set : e.SetsNoState) (asleep : s₀.HasCall h)
    (waits : ∀ v, m = .take v → v.handle ≠ h) : s₀.Lessens h e s' where
  sub l there := by
    rcases does.locks_sub there with before | ⟨v, -, took, mine, -⟩
    · exact lessens.sub l before
    · exact absurd mine (waits v took)
  lost l there gone := by
    have stays (aborted : (s.txn h).isAborted = true) : (s'.txn h).isAborted = true :=
      (does.isAborted aborted).resolve_right fun ⟨state, sets, _⟩ =>
        sets_of_causes set causes h state sets
    by_cases before : l ∈ (s.txn h).locks
    · rcases does.locks_keeps before with still | rfl | ⟨c, rfl, mine, -⟩
      · exact absurd still gone
      · -- of all that give locks back, only an abort may come while the call sleeps
        obtain ⟨-, ⟨forced, rfl⟩ | rfl | rfl | ⟨rfl, aborted⟩⟩ := causes
        · exact absurd asleep (undisturbed h rfl)
        · exact absurd asleep (undisturbed h rfl)
        · exact absurd asleep (undisturbed h rfl)
        · exact ⟨rfl, stays aborted⟩
      · obtain ⟨-, rfl⟩ := causes
        exact absurd asleep (undisturbed h (congrArg some mine))
    · obtain ⟨aborts, aborted⟩ := lessens.lost l there before
      exact ⟨aborts, stays aborted⟩

/-- As long as the call sleeps, its transaction gains no locks, and loses none but by an abort. -/
theorem Books.lessens_after (books : s.Books tableOf) (undisturbed : e.Undisturbed s)
    (set : e.SetsNoState) (asleep : s.HasCall h) (still : (s.after w e).HasCall h) :
    s.Lessens h e (s.after w e) := by
  have calls {c : LockCall} (lock : e = .op (.lock c)) : c.handle ≠ h := by
    rintro rfl
    subst lock
    exact undisturbed _ rfl asleep
  -- once the call has returned its transaction may have gained a lock, but then it sleeps no more
  refine ((after_path w e).keeps (P := fun s' => ¬ s'.HasCall h ∨ s.Lessens h e s') ?_
    (.inr ⟨fun _ => id, fun l there gone => absurd there gone⟩)).resolve_left (not_not_intro still)
  rintro s₁ m s₂ (awake | lessens) does causes
  · left
    intro there
    rw [hasCall_iff] at awake there
    rcases does.callers_sub there with before | ⟨c, call, mine⟩
    · exact awake before
    · exact calls (lock_of_causes causes call) mine
  · by_cases takes : ∃ v, m = .take v ∧ v.handle = h
    · obtain ⟨v, rfl, rfl⟩ := takes
      rcases causes with ⟨rfl, -⟩ | ⟨c, lock, mine⟩
      · exact .inl (books.awake_of_take does)
      · exact absurd mine.symm (calls lock)
    · exact .inr (lessens.move does causes undisturbed set asleep fun v took mine =>
        takes ⟨v, took, mine⟩)

/-- Whoever sleeps after an event and slept before it is still in the same call. -/
theorem Books.same_call_after (books : s.Books tableOf) (fair : e.Fair tableOf s)
    (asleep : v ∈ s.sleepers) :
    ∀ v' ∈ (s.after w e).sleepers, v'.handle = v.handle → v'.hushed = v.hushed := by
  refine ((after_path w e).keeps (P := fun s' => s'.Books tableOf ∧
    ∀ v' ∈ s'.sleepers, v'.handle = v.handle → v'.hushed = v.hushed) ?_ ⟨books, ?_⟩).2
  · rintro s₁ m s₂ ⟨books₁, same⟩ does causes
    refine ⟨books₁.move does (fair_of_causes fair causes), fun v' there mine => ?_⟩
    rcases does.sleeper books₁ (fair_of_causes fair causes) there with ⟨u, before, on⟩ | call
    · have handle := (Sleeper.eq_of_hushed on.same).2.1
      exact on.same.trans (same u before (handle.symm.trans mine))
    · obtain ⟨c, -, call, -, handle, -⟩ := does.call_of_sleeper call
      have lock := lock_of_causes causes call
      subst lock
      exact absurd ⟨v, asleep, (handle.trans mine).symm⟩ fair.oneCall
  · intro v' there mine
    rw [List.inj_on_of_nodup_map books.calls there asleep mine]

/-- What is true while the call sleeps. -/
structure Underway (s₀ : Engine) (c : LockCall) (meanwhile : List (Engine × Walk × Event))
    (s : Engine) : Prop where
  asleep : ∃ v ∈ s.sleepers, v.lockCall = c
  locks : ∀ l, l ∈ (s.txn c.handle).locks ↔ l ∈ (s₀.txn c.handle).locks ∧
    l.resource ≠ c.resource ∧ ¬ GivenBack c.handle l meanwhile
  aborted : ∀ l, GivenBack c.handle l meanwhile → (s.txn c.handle).isAborted = true

theorem not_givenBack_nil {l : Lock} : ¬ GivenBack h l [] :=
  fun ⟨_, _, there, _⟩ => List.not_mem_nil there

theorem givenBack_cons {l : Lock} : GivenBack h l ((s, w, e) :: meanwhile) ↔
    (e = .op (.abort h) ∧ l ∈ (s.txn h).locks ∧ l ∉ ((s.after w e).txn h).locks) ∨
      GivenBack h l meanwhile := by
  constructor
  · rintro ⟨s', w', there, held, gone⟩
    rcases List.mem_cons.1 there with same | there
    · cases same
      exact .inl ⟨rfl, held, gone⟩
    · exact .inr ⟨s', w', there, held, gone⟩
  · rintro (⟨rfl, held, gone⟩ | ⟨s', w', there, held, gone⟩)
    · exact ⟨s, w, List.mem_cons_self, held, gone⟩
    · exact ⟨s', w', List.mem_cons_of_mem _ there, held, gone⟩

/-- A call that is replied to is made for a transaction that somebody holds. -/
theorem perform_lock (replied : (s.perform w (.lock c)).2 ≠ .noSuchTransaction) :
    s.isUsable c.handle = true ∧
      s.perform w (.lock c) = ((s.lock c).1, .ofLock (s.lock c).2) := by
  cases usable : s.isUsable c.handle with
  | true => simp [perform, Op.handle?, usable, carryOut, Prod.map]
  | false => simp [perform, Op.handle?, usable] at replied

theorem Books.underway_start (books : s.Books tableOf)
    (asleep : (s.perform w (.lock c)).2 = .asleep) :
    s.Underway c [] (s.perform w (.lock c)).1 := by
  obtain ⟨usable, made⟩ := perform_lock (by rw [asleep]; exact Reply.noConfusion)
  rw [made] at asleep ⊢
  rcases books.lock_enters usable with ⟨e, failed⟩ | ⟨-, -, had⟩ | ⟨s₁, held, enters, entered⟩
  · rw [failed] at asleep
    cases asleep
  · rw [had] at asleep
    cases asleep
  · rw [entered] at asleep ⊢
    rcases enters.await held with ⟨returned, -⟩ | ⟨-, there, locks⟩
    · rw [returned] at asleep
      cases asleep
    · refine ⟨⟨_, there, rfl⟩, fun l => ?_, fun l given => absurd given not_givenBack_nil⟩
      rw [locks, and_iff_left not_givenBack_nil]

theorem Underway.next (underway : s₀.Underway c meanwhile s) (books : s.Books tableOf)
    (allowed : e.Fair tableOf s ∧ e.Undisturbed s ∧ e.SetsNoState)
    (still : (s.after w e).HasCall c.handle) :
    s₀.Underway c ((s, w, e) :: meanwhile) (s.after w e) := by
  obtain ⟨fair, undisturbed, set⟩ := allowed
  obtain ⟨v, asleep, rfl⟩ := underway.asleep
  have lessens := books.lessens_after undisturbed set ⟨v, asleep, rfl⟩ still
  obtain ⟨v', there, mine⟩ := still
  constructor
  case asleep =>
    have same := congrArg Sleeper.lockCall (books.same_call_after fair asleep v' there mine)
    exact ⟨v', there, same⟩
  case locks =>
    intro l
    rw [givenBack_cons]
    constructor
    · intro now
      obtain ⟨before, other, kept⟩ := (underway.locks l).1 (lessens.sub l now)
      exact ⟨before, other, not_or.2 ⟨fun lost => lost.2.2 now, kept⟩⟩
    · rintro ⟨before, other, kept⟩
      obtain ⟨spared, kept⟩ := not_or.1 kept
      have held := (underway.locks l).2 ⟨before, other, kept⟩
      by_contra gone
      exact spared ⟨(lessens.lost l held gone).1, held, gone⟩
  case aborted =>
    intro l given
    rcases givenBack_cons.1 given with ⟨-, held, gone⟩ | given
    · exact (lessens.lost l held gone).2
    · exact isAborted_after w set.setsAborted (underway.aborted l given)

/-- However long the call has slept, what is true of it is so. -/
theorem Sleeps.underway (books : s₀.Books tableOf) (fair : (Event.op (.lock c)).Fair tableOf s₀)
    (sleeps : Sleeps (fun s e => e.Fair tableOf s ∧ e.Undisturbed s ∧ e.SetsNoState)
      s₀ c meanwhile s) : s.Books tableOf ∧ s₀.Underway c meanwhile s := by
  induction sleeps with
  | @start w asleep => exact ⟨books.after fair w, books.underway_start asleep⟩
  | @next _ _ w _ _ _ allowed still ih =>
    exact ⟨ih.1.after allowed.1 w, ih.2.next ih.1 allowed still⟩

/-- A wake-up that completes a call is a look of this call at its queue. -/
theorem exists_look {n : Nat} {done : Completion} (returned : (s.wake n).2 = some done) :
    ∃ v ∈ s.sleepers, s.isReady v = true ∧ (s.wake n).1 = (s.look v).1 ∧
      (s.look v).2 = [done] := by
  rcases s.wake_look n with same | ⟨v, there, -, looked, ended⟩
  · rw [same] at returned
    cases returned
  · rw [returned] at ended
    refine ⟨v, there, ?_, looked, ended.symm⟩
    by_contra waits
    rw [look_waits (by simpa using waits)] at ended
    cases ended

/-- A look leaves everybody asleep but the one who looks. -/
theorem hasCall_look {u : Sleeper} (there : v ∈ s.sleepers) (asleep : u ∈ s.sleepers)
    (other : u.handle ≠ v.handle) : (s.look v).1.HasCall u.handle := by
  have path : Path (fun _ m => ∀ u, m = .take u ∨ m = .quit u → u = v) s (s.look v).1 :=
    look_path there (by simp) (by simp) (by simp) (by simp)
  refine path.keeps (P := fun s' => s'.HasCall u.handle) ?_ ⟨u, asleep, rfl⟩
  rintro s₁ m s₂ ⟨u', asleep', same⟩ does only
  rcases does.asleep asleep' with ⟨u'', asleep'', hushed⟩ | ended
  · exact ⟨u'', asleep'', (Sleeper.eq_of_hushed hushed).2.1.trans same⟩
  · rw [only u' ended] at same
    exact absurd same.symm other

/-- The call that returns is the one that slept. -/
theorem Underway.exists_look (underway : s₀.Underway c meanwhile s) (books : s.Books tableOf)
    {n : Nat} {done : Completion} (returned : (s.wake n).2 = some done)
    (gone : ¬ (s.wake n).1.HasCall c.handle) :
    ∃ v ∈ s.sleepers, v.lockCall = c ∧ s.isReady v = true ∧ (s.wake n).1 = (s.look v).1 ∧
      (s.look v).2 = [done] := by
  obtain ⟨u, asleep, rfl⟩ := underway.asleep
  obtain ⟨v, there, ready, looked, ended⟩ := Engine.exists_look returned
  have same : u.handle = v.handle := by
    by_contra other
    rw [looked] at gone
    exact gone (hasCall_look there asleep other)
  obtain rfl : u = v := List.inj_on_of_nodup_map books.calls asleep there same
  exact ⟨u, there, rfl, ready, looked, ended⟩

/-- A wake-up that completes no call leaves everybody asleep. -/
theorem callers_wake {n : Nat} (nobody : (s.wake n).2 = none) :
    (s.wake n).1.callers = s.callers := by
  rcases s.wake_look n with same | ⟨v, there, -, looked, ended⟩
  · rw [same]
  · rw [nobody] at ended
    cases ready : s.isReady v with
    | true =>
      rw [look, if_pos ready] at ended
      cases ended
    | false =>
      obtain ⟨xs, ys, split, replaced⟩ := replace_hushed there
      rw [looked, look_waits ready, callers, replaced, callers, split]
      simp [Sleeper.hushed]

/-- Returning is the only way in which a call that sleeps can end. -/
theorem Sleeps.returns (books : s₀.Books tableOf) (fair : (Event.op (.lock c)).Fair tableOf s₀)
    (sleeps : Sleeps (fun s e => e.Fair tableOf s ∧ e.Undisturbed s ∧ e.SetsNoState)
      s₀ c meanwhile s) (allowed : e.Fair tableOf s) (awake : ¬ (s.after w e).HasCall c.handle) :
    ∃ granted, Returns (fun s e => e.Fair tableOf s ∧ e.Undisturbed s ∧ e.SetsNoState)
      s₀ c meanwhile granted (s.after w e) := by
  obtain ⟨books₁, underway⟩ := sleeps.underway books fair
  obtain ⟨v, asleep, rfl⟩ := underway.asleep
  rcases asleep_after w books₁ allowed asleep with ⟨v', there, same⟩ | ⟨rfl, -⟩
  · exact absurd ⟨v', there, (Sleeper.eq_of_hushed same).2.1⟩ awake
  · cases returned : (s.wake v.call).2 with
    | none =>
      rw [after, hasCall_iff, callers_wake returned] at awake
      exact absurd (List.mem_map.2 ⟨v, asleep, rfl⟩) awake
    | some done => exact ⟨done.granted, .later sleeps returned awake⟩

/-- A call that finds its transaction aborted leaves nothing on the resource. -/
theorem Underway.withdrawn (underway : s₀.Underway v.lockCall meanwhile s) (books : s.Books tableOf)
    (there : v ∈ s.sleepers) (aborted : (s.txn v.handle).isAborted = true)
    (gone : ¬ (s.look v).1.HasCall v.handle) : s₀.Withdrawn v.lockCall meanwhile (s.look v).1 := by
  have books' := books_of_path books (look_path there trivial trivial trivial fun _ => trivial)
  rw [look_aborted aborted] at books' gone ⊢
  refine ⟨aborted, underway.locks,
    books'.absent (books.known v there) (books.known_of_asleep there) ?_ gone⟩
  refine LockSet.mode?_eq_none_iff.2 fun m held => ?_
  exact ((underway.locks ⟨v.resource, m⟩).1 held).2.1 rfl

/-- A call that was granted its lock takes it. No abort has given anything back meanwhile. -/
theorem Underway.locked (underway : s₀.Underway v.lockCall meanwhile s) (books : s.Books tableOf)
    (there : v ∈ s.sleepers) (live : (s.txn v.handle).isAborted = false)
    (granted : (s.queue v.resource.key).isGranted (s.txn v.handle).id = true) :
    s₀.Locked v.lockCall (s.look v).1 := by
  have books' := books_of_path books (look_path there trivial trivial trivial fun _ => trivial)
  rw [look_granted live granted] at books' ⊢
  refine books'.locked ((isAborted_updateTxn_record ..).trans live) fun l => ?_
  have kept : ¬ GivenBack v.lockCall.handle l meanwhile := fun given =>
    Bool.false_ne_true (live.symm.trans (underway.aborted l given))
  refine (mem_locks_updateTxn_record (books.known v there) (books.awaits v there).plain).trans ?_
  refine or_congr (and_iff_right rfl) ((underway.locks l).trans ?_)
  rw [and_iff_left kept]

/-- A call that returns at once has its lock, be it that it had it already. -/
theorem Books.locked_at_once (books : s.Books tableOf) (fair : (Event.op (.lock c)).Fair tableOf s)
    (returned : (s.perform w (.lock c)).2 = .locked granted) :
    granted = true ∧ s.Locked c (s.perform w (.lock c)).1 := by
  have books' := books.after fair w
  obtain ⟨usable, made⟩ := perform_lock (by rw [returned]; exact Reply.noConfusion)
  rw [Engine.after, made] at books'
  rw [made] at returned ⊢
  rcases books.lock_enters usable with ⟨e, failed⟩ | ⟨live, held, had⟩ | ⟨s₁, held, enters, entered⟩
  · rw [failed] at returned
    cases returned
  · rw [had] at returned books' ⊢
    cases returned
    refine ⟨rfl, books'.locked (by rwa [txn_register]) fun l => ?_⟩
    rw [txn_register]
    constructor
    · intro there
      by_cases same : l = ⟨c.resource, c.mode⟩
      · exact .inl same
      · exact .inr ⟨there, (books.beside held there).1 same⟩
    · rintro (rfl | ⟨there, -⟩)
      · exact LockSet.mem_of_mode? held
      · exact there
  · rw [entered] at returned books' ⊢
    rcases enters.await held with ⟨now, live, locks⟩ | ⟨asleep, -⟩
    · rw [now] at returned
      cases returned
      exact ⟨rfl, books'.locked live locks⟩
    · rw [asleep] at returned
      cases returned

/-- A lock call either has its lock when it returns, and the transaction has it beside all it had on
other resources, or the transaction is aborted and has nothing on the resource. Elsewhere it has
lost what an abort has given back, and nothing more. -/
theorem lock_call_effect (reach : Reachable config (fun s e => e.Fair tableOf s) s₀)
    (fair : (Event.op (.lock c)).Fair tableOf s₀)
    (returns : Returns (fun s e => e.Fair tableOf s ∧ e.Undisturbed s ∧ e.SetsNoState)
      s₀ c meanwhile granted s) :
    (granted = true → s₀.Locked c s) ∧ (granted = false → s₀.Withdrawn c meanwhile s) := by
  cases returns with
  | atOnce returned =>
    obtain ⟨rfl, locked⟩ := reach.books.locked_at_once fair returned
    exact ⟨fun _ => locked, Bool.noConfusion⟩
  | @later _ s _ _ sleeps returned gone =>
    obtain ⟨books, underway⟩ := sleeps.underway reach.books fair
    obtain ⟨v, there, rfl, ready, looked, ended⟩ := underway.exists_look books returned gone
    rw [looked] at gone ⊢
    cases aborted : (s.txn v.handle).isAborted with
    | true =>
      rw [look_aborted aborted] at ended
      cases ended
      exact ⟨Bool.noConfusion, fun _ => underway.withdrawn books there aborted gone⟩
    | false =>
      rw [isReady, aborted, Bool.or_false] at ready
      rw [look_granted aborted ready] at ended
      cases ended
      exact ⟨fun _ => underway.locked books there aborted ready, Bool.noConfusion⟩

/-- For instance a reader of rows who writes another table wants to read the whole table, and waits
for one who writes rows. When that one commits the reader has his lock. When the reader is aborted
instead, he has lost the other table too. -/
theorem lock_call_effect_of_upgrade :
    let s₀ := (fresh {}).afterAll .ascending
      [.op (.begin .repeatableRead), .op (.begin .repeatableRead),
        .op (.lock ⟨2, 0, .exclusive, .table 1⟩), .op (.lock ⟨3, 0, .intentionShared, .table 5⟩),
        .op (.lock ⟨4, 1, .intentionExclusive, .table 5⟩)]
    let c : LockCall := ⟨5, 0, .shared, .table 5⟩
    let s := (s₀.perform .ascending (.lock c)).1
    (s₀.perform .ascending (.lock c)).2 = .asleep ∧
      s₀.Locked c ((s.after .ascending (.op (.commit 1))).wake 5).1 ∧
      s₀.Withdrawn c [(s, .ascending, .op (.abort 0))]
        ((s.after .ascending (.op (.abort 0))).wake 5).1 ∧
      GivenBack 0 ⟨.table 1, .exclusive⟩ [(s, .ascending, .op (.abort 0))] := by
  intro s₀ c s
  have reach : Reachable {} (fun s e => e.Fair (fun _ => 5) s) s₀ :=
    Reachable.afterAll Walk.complete_ascending .fresh (by decide +kernel)
  have fair : (Event.op (.lock c)).Fair (fun _ => 5) s₀ := by decide +kernel
  have asleep : (s₀.perform .ascending (.lock c)).2 = .asleep := by decide +kernel
  have sleeps : Sleeps (fun s e => e.Fair (fun _ => 5) s ∧ e.Undisturbed s ∧ e.SetsNoState)
      s₀ c [] s := .start asleep
  have returns (o : Op) (granted : Bool)
      (allowed : (Event.op o).Fair (fun _ => 5) s ∧ (Event.op o).Undisturbed s ∧
        (Event.op o).SetsNoState)
      (still : (s.after .ascending (.op o)).HasCall 0)
      (returned : ((s.after .ascending (.op o)).wake 5).2 = some ⟨5, granted⟩)
      (gone : ¬ ((s.after .ascending (.op o)).wake 5).1.HasCall 0) :
      Returns (fun s e => e.Fair (fun _ => 5) s ∧ e.Undisturbed s ∧ e.SetsNoState) s₀ c
        [(s, .ascending, .op o)] granted ((s.after .ascending (.op o)).wake 5).1 :=
    .later (sleeps.next Walk.complete_ascending allowed still) returned gone
  refine ⟨asleep, ?_, ?_, s, .ascending, List.mem_singleton_self _, ?_, ?_⟩
  · exact (lock_call_effect reach fair (returns (.commit 1) true (by decide +kernel)
      (by decide +kernel) (by decide +kernel) (by decide +kernel))).1 rfl
  · exact (lock_call_effect reach fair (returns (.abort 0) false (by decide +kernel)
      (by decide +kernel) (by decide +kernel) (by decide +kernel))).2 rfl
  · decide +kernel
  · decide +kernel

end TwoPhaseLocking.Engine

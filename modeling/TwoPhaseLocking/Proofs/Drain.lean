import TwoPhaseLocking.Proofs.Finish
import TwoPhaseLocking.Proofs.Stuck

/-! # The system drains

In rounds of a detection pass, after which every transaction is ended that can be, everybody comes
to an end. Either the pass has a victim, or there is no deadlock, and then somebody has a lock who
waits for nothing. Such a transaction can be ended, and stays so until it is its turn. Once it has
been ended it comes by no other lock, so each round leaves fewer who have a lock or a call asleep.
-/

namespace TwoPhaseLocking

/-- The moves of calls that look at their queues, of a detection pass, and of transactions that
are ended. -/
def Move.Closing : Move → Prop
  | notify _ | take _ | quit _ | doze _ | give .. | retire _ | side | mark _ (.abort _)
  | mark _ .commit => True
  | _ => False

theorem Move.Winding.closing {a : Move} (winding : a.Winding) : a.Closing := by
  cases a with
  | mark h k =>
    cases k with
    | abort => trivial
    | _ => exact winding.elim
  | notify | take | quit | doze | side => trivial
  | _ => exact winding.elim

theorem Move.Closing.call? {a : Move} (closing : a.Closing) : a.call? = none := by
  cases a with
  | join | swap => exact closing.elim
  | _ => rfl

namespace Engine

variable {tableOf : RowId → TableId} {config : Config} {s s' s'' s₀ : Engine} {a : Move}
  {h : Handle} {w : Walk} {os : List Outcome}

/-- The transaction is not done with its locks: it has some, or waits for one. -/
def Busy (s : Engine) (h : Handle) : Prop := s.HasCall h ∨ (s.txn h).locks ≠ ∅

instance (s : Engine) (h : Handle) : Decidable (s.Busy h) :=
  inferInstanceAs (Decidable (s.HasCall h ∨ (s.txn h).locks ≠ ∅))

/-- How many transactions are not done with their locks. None of them has committed, and one that
is aborted has yet to be ended. Those that run without a lock or a call have nothing to leave
behind, and do not count. -/
def unfinished (s : Engine) : Nat := (List.range s.txns.size).countP fun h => s.Busy h

/-- The transaction is aborted, or waits for nothing. -/
def Ripe (s : Engine) (h : Handle) : Prop := (s.txn h).isAborted = true ∨ ¬ s.HasCall h

/-- The turn of a transaction, with what came of it if there was something to do. -/
def finish (w : Walk) (s : Engine) (h : Handle) : Engine × List Outcome :=
  match (s.txn h).state with
  | .aborted => (s.abort w h).map id ([·])
  | .committed => (s, [])
  | .growing | .shrinking => if s.HasCall h then (s, []) else (s.commit w h).map id ([·])

/-- A detection pass, after which transactions are ended one after the other. -/
structure Round where
  walk : Walk
  /-- The calls that look at their queues after the pass, by number. -/
  first : List Nat
  /-- Whose turn it is then. -/
  order : Engine → List Handle
  /-- The calls that look at their queues after the turn of a transaction. -/
  between : Handle → List Nat

/-- Everybody who was there in state `s₀` has his turn if he can be ended. -/
structure Round.Complete (r : Round) (s₀ : Engine) : Prop where
  walk : r.walk.Complete
  known : ∀ s, ∀ h ∈ r.order s, h < s.txns.size
  all : ∀ s, ∀ h < s.txns.size, s₀.isReferred h = true → s.Ripe h → h ∈ r.order s

def finishEach (r : Round) (s : Engine) : List Handle → Engine × List Outcome
  | [] => (s, [])
  | h :: hs =>
    let ended := s.finish r.walk h
    (finishEach r (ended.1.afterAll r.walk ((r.between h).map .wake)) hs).map id (ended.2 ++ ·)

/-- A round, at the end of which all calls have looked that have been told something. -/
def round (s : Engine) (r : Round) : Engine × List Outcome :=
  let passed := (s.detect r.walk).1.afterAll r.walk (r.first.map .wake)
  (finishEach r passed (r.order passed)).map (·.settle.1) id

def drain (s : Engine) : List Round → Engine × List Outcome
  | [] => (s, [])
  | r :: rs =>
    let ended := s.round r
    (drain ended.1 rs).map id (ended.2 ++ ·)

theorem busy_of_mem_locks {l : Lock} (there : l ∈ (s.txn h).locks) : s.Busy h :=
  .inr fun empty => LockSet.eq_empty_iff.1 empty l there

theorem Busy.lt_size (busy : s.Busy h) (books : s.Books tableOf) : h < s.txns.size := by
  rcases busy with ⟨v, asleep, rfl⟩ | some
  · exact books.known v asleep
  · exact lt_size_of_txn (p := fun t => t.locks ≠ ∅) some fun differs => differs rfl

theorem unfinished_eq_zero (books : s.Books tableOf) : s.unfinished = 0 ↔ ∀ h, ¬ s.Busy h := by
  simp only [unfinished, List.countP_eq_zero, List.mem_range, decide_eq_true_eq]
  exact ⟨fun none h busy => none h (busy.lt_size books) busy, fun none h _ => none h⟩

/-- Transactions have only come closer to their ends. -/
structure Closes (s s' : Engine) : Prop where
  size : s'.txns.size = s.txns.size
  busy : ∀ h, s'.Busy h → s.Busy h
  ripe : ∀ h, s.Ripe h → s'.Ripe h
  /-- No lock comes to a transaction that can be ended. -/
  locks : ∀ h, s.Ripe h → (s.txn h).locks = ∅ → (s'.txn h).locks = ∅

theorem Closes.refl (s : Engine) : s.Closes s := ⟨rfl, fun _ => id, fun _ => id, fun _ _ => id⟩

theorem Closes.trans (first : s.Closes s') (second : s'.Closes s'') : s.Closes s'' where
  size := second.size.trans first.size
  busy h busy := first.busy h (second.busy h busy)
  ripe h ripe := second.ripe h (first.ripe h ripe)
  locks h ripe empty := second.locks h (first.ripe h ripe) (first.locks h ripe empty)

theorem Does.closes (does : s.Does a s') (closing : a.Closing) : s.Closes s' := by
  constructor
  case size =>
    cases does with
    | mark | give | take => exact size_updateTxn ..
    | notify | quit | doze | retire => rfl
    | side alike => rw [alike.txns]
    | _ => exact closing.elim
  case busy =>
    rintro h (asleep | some)
    · exact .inl (does.hasCall closing.call? asleep)
    · rw [Ne, LockSet.eq_empty_iff] at some
      push Not at some
      obtain ⟨l, there⟩ := some
      rcases does.locks_sub there with before | ⟨v, asleep, -, mine, -⟩
      · exact busy_of_mem_locks before
      · exact .inl ⟨v, asleep, mine⟩
  case ripe =>
    rintro h (aborted | idle)
    · rcases does.isAborted aborted with still | ⟨state, rfl, -⟩
      · exact .inl still
      · exact closing.elim
    · exact .inr fun there => idle (does.hasCall closing.call? there)
  case locks =>
    intro h ripe empty
    refine LockSet.eq_empty_iff.2 fun l there => ?_
    rcases does.locks_sub there with before | ⟨v, asleep, -, mine, live, -⟩
    · exact LockSet.eq_empty_iff.1 empty l before
    · -- whoever takes a lock has a call asleep and is not aborted
      rcases ripe with aborted | idle
      · rw [aborted] at live
        cases live
      · exact idle ⟨v, asleep, mine⟩

theorem closes_of_path (path : Path (fun _ a => a.Closing) s s') : s.Closes s' :=
  path.keeps (fun _ _ _ closes does closing => closes.trans (does.closes closing)) (.refl s)

theorem closes_of_winding (path : Path (fun _ a => a.Winding) s s') : s.Closes s' :=
  closes_of_path (path.mono fun _ _ => Move.Winding.closing)

theorem closes_of_ending (path : Path (·.Ending h) s s') : s.Closes s' := by
  refine closes_of_path (path.mono fun s a ending => ?_)
  cases a with
  | mark h' k =>
    cases k with
    | abort | commit => trivial
    | _ => exact ending.elim
  | give | notify | retire | side => trivial
  | _ => exact ending.elim

/-- What runs keep, as far as ending transactions relies on it. -/
structure Sound (tableOf : RowId → TableId) (s : Engine) : Prop where
  watchful : s.Watchful tableOf fun _ => False
  cleared : s.Cleared tableOf
  tidy : s.Tidy

theorem Sound.winding (sound : s.Sound tableOf) (path : Path (fun _ a => a.Winding) s s')
    (watchful : s'.Watchful tableOf fun _ => False) : s'.Sound tableOf :=
  ⟨watchful, sound.cleared.winding path, sound.tidy.path path⟩

theorem Sound.ending (sound : s.Sound tableOf) (path : Path (·.Ending h) s s')
    (watchful : s'.Watchful tableOf fun _ => False) : s'.Sound tableOf :=
  ⟨watchful, sound.cleared.ending path, sound.tidy.path path⟩

theorem Sound.detect (sound : s.Sound tableOf) (complete : w.Complete) :
    (s.detect w).1.Sound tableOf :=
  sound.winding (detect_winding w) (sound.watchful.detect complete)

theorem Sound.wakes (sound : s.Sound tableOf) (ns : List Nat) :
    (s.afterAll w (ns.map .wake)).Sound tableOf :=
  sound.winding (wakes_winding w ns) (sound.watchful.wakes ns)

theorem Sound.settle (sound : s.Sound tableOf) : s.settle.1.Sound tableOf :=
  sound.winding settle_winding sound.watchful.settle

/-- Once all have looked who have been told something, whoever can be ended waits for nothing. -/
theorem Sound.idle_of_ripe (sound : s.Sound tableOf) (quiet : s.isQuiet = true)
    (ripe : s.Ripe h) : ¬ s.HasCall h := by
  rcases ripe with aborted | idle
  · rintro ⟨v, asleep, rfl⟩
    rw [sound.watchful.awake quiet v asleep] at aborted
    cases aborted
  · exact idle

/-- Somewhere on the way from `s`, with outcomes that are no failures. -/
structure Advances (tableOf : RowId → TableId) (s : Engine) (ended : Engine × List Outcome) :
    Prop where
  sound : ended.1.Sound tableOf
  closes : s.Closes ended.1
  done : ∀ o ∈ ended.2, o = .done

theorem Advances.refl (sound : s.Sound tableOf) : s.Advances tableOf (s, []) :=
  ⟨sound, .refl s, fun _ none => nomatch none⟩

theorem Advances.trans {ended : Engine × List Outcome} (first : s.Advances tableOf (s', os))
    (second : s'.Advances tableOf ended) : s.Advances tableOf (ended.map id (os ++ ·)) where
  sound := second.sound
  closes := first.closes.trans second.closes
  done o there := (List.mem_append.1 there).elim (first.done o) (second.done o)

/-- Each turn succeeds, and whoever can be ended has no lock afterwards. -/
theorem Sound.finish (sound : s.Sound tableOf) (complete : w.Complete) (known : h < s.txns.size) :
    s.Advances tableOf (s.finish w h) ∧
      (s.Ripe h → ((s.finish w h).1.txn h).locks = ∅) := by
  have books := sound.cleared.books
  have passed (active : (s.txn h).state.isTerminal = false) (asleep : s.HasCall h) :
      s.Advances tableOf (s, []) ∧ (s.Ripe h → (s.txn h).locks = ∅) := by
    refine ⟨.refl sound, fun ripe => ?_⟩
    rcases ripe with aborted | idle
    · rw [isAborted_of_active active] at aborted
      cases aborted
    · exact absurd asleep idle
  have committed (active : (s.txn h).state.isTerminal = false) (idle : ¬ s.HasCall h) :
      s.Advances tableOf ((s.commit w h).map id ([·])) ∧
        (s.Ripe h → ((s.commit w h).1.txn h).locks = ∅) := by
    have watchful := sound.watchful.commit (w := w) known idle
    obtain ⟨s', done, empty, path⟩ := books.commit_done complete active idle
    rw [done] at watchful ⊢
    exact ⟨⟨sound.ending path watchful, closes_of_ending path, by simp⟩, fun _ => empty⟩
  unfold Engine.finish
  cases state : (s.txn h).state with
  | aborted =>
    have watchful := sound.watchful.abort complete known
    obtain ⟨s', done, -, empty, path⟩ := books.abort_done complete known (by simp [state])
    simp only [done] at watchful ⊢
    exact ⟨⟨sound.ending path watchful, closes_of_ending path, by simp⟩, fun _ => empty⟩
  | committed => exact ⟨.refl sound, fun _ => sound.cleared.cleared h state⟩
  | growing | shrinking =>
    have active : (s.txn h).state.isTerminal = false := by
      rw [state]
      rfl
    dsimp only
    split
    · exact passed active ‹_›
    · exact committed active ‹_›

/-- Whoever can be ended when the turns begin has no lock when they are over. -/
theorem Sound.finishEach (sound : s.Sound tableOf) {r : Round} (complete : r.walk.Complete)
    {hs : List Handle} (known : ∀ h ∈ hs, h < s.txns.size) :
    s.Advances tableOf (s.finishEach r hs) ∧
      ∀ h ∈ hs, s.Ripe h → ((s.finishEach r hs).1.txn h).locks = ∅ := by
  induction hs generalizing s with
  | nil => exact ⟨.refl sound, by simp⟩
  | cons h hs ih =>
    obtain ⟨turn, empty⟩ := sound.finish complete (known h List.mem_cons_self)
    rw [Engine.finishEach]
    generalize s.finish r.walk h = ended at turn empty ⊢
    have woken : s.Closes (ended.1.afterAll r.walk ((r.between h).map .wake)) :=
      turn.closes.trans (closes_of_winding (wakes_winding _ _))
    obtain ⟨rest, later⟩ := ih (turn.sound.wakes (r.between h)) fun h' member =>
      woken.size ▸ known h' (List.mem_cons_of_mem h member)
    refine ⟨Advances.trans ⟨turn.sound.wakes (r.between h), woken, turn.done⟩ rest, ?_⟩
    intro h' member ripe
    rcases List.mem_cons.1 member with rfl | member
    · have empty' := (closes_of_winding (wakes_winding r.walk (r.between h'))).locks h'
        (turn.closes.ripe h' ripe) (empty ripe)
      exact rest.closes.locks h' (woken.ripe h' ripe) empty'
    · exact later h' member (woken.ripe h' ripe)

/-- Where there is no deadlock not everybody who has a lock waits. Else each of those who wait would
wait behind another, for the first request of each queue is granted. -/
theorem Sound.exists_idle (sound : s.Sound tableOf) (quiet : s.isQuiet = true)
    (free : s.DeadlockFree) (busy : s.Busy h) : ∃ h, s.Busy h ∧ ¬ s.HasCall h := by
  by_contra none
  push Not at none
  have books := sound.cleared.books
  suffices stuck : s.Stuck (fun _ _ => True) {h | s.HasCall h} from
    stuck.not_deadlockFree books (fun _ => sound.watchful.blockable quiet) free
  refine ⟨⟨h, none h busy⟩, ?_⟩
  rintro _ ⟨v, asleep, rfl⟩
  obtain ⟨x, hx, isFor, waits⟩ := books.waits asleep (untold_of_isQuiet quiet asleep)
  have tidy := sound.tidy v.resource.key
  obtain ⟨y, first⟩ := Option.isSome_iff_exists.1 (List.isSome_head?.2 (List.ne_nil_of_mem hx))
  have hy := List.mem_of_mem_head? first
  have ahead := tidy.toOrderly.mem_ahead (books.once _) hx waits hy (tidy.head_granted first)
  obtain ⟨h', -, own, backs⟩ := books.backed _ y hy
  have busy' : s.Busy h' := by
    rcases backs with ⟨-, there⟩ | ⟨v', asleep', mine, -⟩
    · exact busy_of_mem_locks there
    · exact .inl ⟨v', asleep', mine⟩
  rw [isFor.txn] at ahead
  exact ⟨h', none h' busy', v, asleep, rfl, x, hx, isFor.txn, waits, y, ahead, own, trivial⟩

/-- The first of those chosen is aborted. -/
theorem isAborted_sacrifice {v : TxnId} (all : Bool) (vs : List TxnId)
    (found : s.lookup v = some h) (lt : h < s.txns.size)
    (uncommitted : (s.txn h).state ≠ .committed) :
    ((s.sacrifice all (v :: vs)).1.txn h).isAborted = true := by
  have first := isAborted_withVictim lt uncommitted
  rw [sacrifice, abortVictim_eq found uncommitted]
  cases all with
  | false => exact first
  | true =>
    have rest : Path (fun _ a => a.Winding) (s.withVictim h)
        ((s.withVictim h).sacrifice true vs).1 :=
      sacrifice_path (fun _ _ _ => trivial) (fun _ => trivial) true vs
    exact (winds_of_path rest).aborted h first

/-- Where there is deadlock a pass aborts somebody who waits. -/
theorem exists_victim (books : s.Books tableOf) (enrolled : s.Enrolled) (complete : w.Complete)
    (deadlock : ¬ s.DeadlockFree) :
    ∃ h, s.HasCall h ∧ ((s.detect w).1.txn h).isAborted = true := by
  have books' := books_of_path books counted_path
  have enrolled' := enrolled_of_path books enrolled counted_path
  have roused : Path (fun _ a => a.Winding) ((s.tally Stats.detectionPass).sacrifice
      s.config.resolveAll ((s.tally Stats.detectionPass).waitGraph w).breakCycles.1).1
      (s.detect w).1 :=
    rouse_path (fun _ _ => trivial) (fun _ => trivial) w _
  cases chosen : ((s.tally Stats.detectionPass).waitGraph w).breakCycles.1 with
  | nil =>
    have free := (acyclic_waitGraph_iff (s := s.tally Stats.detectionPass) complete).1
      (WaitGraph.breakCycles_eq_nil_iff.1 chosen)
    exact absurd free deadlock
  | cons v vs =>
    obtain ⟨h, asleep, found, lt, -, uncommitted⟩ :=
      caller_of_mem_breakCycles books' enrolled' complete (chosen ▸ List.mem_cons_self)
    have aborted := isAborted_sacrifice s.config.resolveAll vs found lt uncommitted
    rw [chosen] at roused
    exact ⟨h, hasCall_iff.2 asleep, (winds_of_path roused).aborted h aborted⟩

/-- As long as somebody is not done, a pass leaves one of those such that he can be ended. -/
theorem Sound.exists_ripe (sound : s.Sound tableOf) (quiet : s.isQuiet = true)
    (complete : w.Complete) (busy : s.Busy h) : ∃ h, s.Busy h ∧ (s.detect w).1.Ripe h := by
  by_cases free : s.DeadlockFree
  · obtain ⟨h, busy, idle⟩ := sound.exists_idle quiet free busy
    exact ⟨h, busy, (closes_of_winding (detect_winding w)).ripe h (.inr idle)⟩
  · obtain ⟨h, asleep, aborted⟩ :=
      exists_victim sound.cleared.books sound.cleared.enrolled complete free
    exact ⟨h, .inl asleep, .inl aborted⟩

theorem Closes.unfinished_lt (closes : s.Closes s') (books : s.Books tableOf) (busy : s.Busy h)
    (done : ¬ s'.Busy h) : s'.unfinished < s.unfinished := by
  rw [unfinished, unfinished, closes.size]
  refine countP_lt (fun h' _ busy' => ?_) (List.mem_range.2 (busy.lt_size books)) (by simpa)
    (by simpa)
  simp only [decide_eq_true_eq] at busy' ⊢
  exact closes.busy h' busy'

/-- Once all have looked, whoever could be ended when the turns began is done. -/
theorem Sound.done_of_ripe (sound : s.Sound tableOf) {r : Round} (complete : r.walk.Complete)
    {hs : List Handle} (known : ∀ h ∈ hs, h < s.txns.size) (member : h ∈ hs) (ripe : s.Ripe h) :
    ¬ (s.finishEach r hs).1.settle.1.Busy h := by
  obtain ⟨turns, ended⟩ := sound.finishEach complete known
  have settled := closes_of_winding (settle_winding (s := (s.finishEach r hs).1))
  have ripe' := turns.closes.ripe h ripe
  rintro (asleep | some)
  · have quiet : (s.finishEach r hs).1.settle.1.isQuiet = true := isQuiet_settleWithin _
    exact turns.sound.settle.idle_of_ripe quiet (settled.ripe h ripe') asleep
  · exact some (settled.locks h ripe' (ended h member ripe))

theorem Sound.round (sound : s.Sound tableOf) (quiet : s.isQuiet = true) {r : Round}
    (complete : r.Complete s₀) (referred : ∀ h, s.Busy h → s₀.isReferred h = true) :
    s.Advances tableOf (s.round r) ∧ (s.round r).1.isQuiet = true ∧
      (s.round r).1.unfinished ≤ s.unfinished - 1 := by
  have woken := closes_of_winding (wakes_winding (s := (s.detect r.walk).1) r.walk r.first)
  have passed := (closes_of_winding (detect_winding r.walk)).trans woken
  have sound' := (sound.detect complete.walk).wakes (w := r.walk) r.first
  unfold Engine.round
  generalize (s.detect r.walk).1.afterAll r.walk (r.first.map .wake) = s' at woken passed sound' ⊢
  have known := complete.known s'
  obtain ⟨turns, -⟩ := sound'.finishEach complete.walk known
  have closes := (passed.trans turns.closes).trans (closes_of_winding settle_winding)
  have advances : s.Advances tableOf ((s'.finishEach r (r.order s')).map (·.settle.1) id) :=
    ⟨turns.sound.settle, closes, turns.done⟩
  refine ⟨advances, isQuiet_settleWithin _, ?_⟩
  by_cases none : ∀ h, ¬ s.Busy h
  · rw [(unfinished_eq_zero advances.sound.cleared.books).2 fun h busy => none h (closes.busy h busy)]
    exact Nat.zero_le _
  · push Not at none
    obtain ⟨_, busy⟩ := none
    obtain ⟨h, busy, ripe⟩ := sound.exists_ripe quiet complete.walk busy
    have lt := passed.size ▸ busy.lt_size sound.cleared.books
    have member := complete.all s' h lt (referred h busy) (woken.ripe h ripe)
    have done := sound'.done_of_ripe complete.walk known member (woken.ripe h ripe)
    exact Nat.le_sub_one_of_lt (closes.unfinished_lt sound.cleared.books busy done)

/-- There are as many rounds as transactions that are not done. -/
theorem Sound.drain (sound : s.Sound tableOf) (quiet : s.isQuiet = true) {rs : List Round}
    (complete : ∀ r ∈ rs, r.Complete s₀) (referred : ∀ h, s.Busy h → s₀.isReferred h = true)
    (enough : s.unfinished ≤ rs.length) :
    s.Advances tableOf (s.drain rs) ∧ (s.drain rs).1.unfinished = 0 := by
  induction rs generalizing s with
  | nil => exact ⟨.refl sound, Nat.le_zero.1 enough⟩
  | cons r rs ih =>
    obtain ⟨advances, quiet', fewer⟩ := sound.round quiet (complete r List.mem_cons_self) referred
    have enough' : (s.round r).1.unfinished ≤ rs.length := by
      rw [List.length_cons] at enough
      omega
    obtain ⟨rest, none⟩ := ih advances.sound quiet'
      (fun r member => complete r (List.mem_cons_of_mem _ member))
      (fun h busy => referred h (advances.closes.busy h busy)) enough'
    exact ⟨advances.trans rest, none⟩

/-- In every state that clients can lead to who do nothing but abort or let go of a transaction
while a call of it sleeps, who strike nobody off and set no states, once all calls have looked that
have been told something, and if nobody has been let go of for good who has a lock: rounds of a
detection pass after which every transaction is ended that can be, as many as there are
transactions with a lock or a call asleep, leave no call asleep, no request in any queue and no
lock with any transaction, and no commit or abort among them fails. It does not matter whether
passes break all cycles, in what order transactions have their turns, and when between them
calls look that have been told something. -/
theorem drains
    (reach : Reachable config
      (fun s e => e.Fair tableOf s ∧ e.Undisturbed s ∧ e.KeepsRegister ∧ e.SetsNoState) s)
    (quiet : s.isQuiet = true)
    (kept : ∀ h < s.txns.size, (s.txn h).locks ≠ ∅ → s.isReferred h = true)
    {rs : List Round} (complete : ∀ r ∈ rs, r.Complete s) (enough : s.unfinished ≤ rs.length) :
    (s.drain rs).1.sleepers = [] ∧ (∀ k, ((s.drain rs).1.queue k).requests = []) ∧
      (∀ h, ((s.drain rs).1.txn h).locks = ∅) ∧ ∀ o ∈ (s.drain rs).2, o = .done := by
  have watchful := (reach.mono fun _ _ allowed =>
    ⟨allowed.1, allowed.2.1, allowed.2.2.1⟩).watchful
  have cleared := (reach.mono fun _ _ allowed =>
    ⟨allowed.1, allowed.2.1, allowed.2.2.2⟩).cleared
  have referred (h : Handle) (busy : s.Busy h) : s.isReferred h = true := by
    rcases busy with asleep | some
    · exact isReferred_iff.2 (.inr (.inr (hasCall_iff.1 asleep)))
    · exact kept h (Busy.lt_size (.inr some) cleared.books) some
  obtain ⟨advances, none⟩ :=
    Sound.drain ⟨watchful, cleared, reach.tidy⟩ quiet complete referred enough
  have books := advances.sound.cleared.books
  have done := (unfinished_eq_zero books).1 none
  refine ⟨?_, fun k => ?_, fun h => ?_, advances.done⟩
  · exact List.eq_nil_iff_forall_not_mem.2 fun v asleep => done v.handle (.inl ⟨v, asleep, rfl⟩)
  · refine List.eq_nil_iff_forall_not_mem.2 fun x hx => ?_
    obtain ⟨h, -, -, backs⟩ := books.backed k x hx
    rcases backs with ⟨-, there⟩ | ⟨v, asleep, mine, -⟩
    · exact done h (busy_of_mem_locks there)
    · exact done h (.inl ⟨v, asleep, mine⟩)
  · exact not_not.1 fun some => done h (.inr some)

/-- For instance when two wait for each other and a third for one of them, and passes stop at their
first victim. -/
theorem drains_of_two :
    let s := (fresh { resolveAll := false }).afterAll .ascending
      [.op (.begin .repeatableRead), .op (.begin .repeatableRead), .op (.begin .repeatableRead),
        .op (.lock ⟨3, 0, .exclusive, .table 1⟩), .op (.lock ⟨4, 1, .exclusive, .table 2⟩),
        .op (.lock ⟨5, 0, .exclusive, .table 2⟩), .op (.lock ⟨6, 1, .exclusive, .table 1⟩),
        .op (.lock ⟨7, 2, .shared, .table 1⟩), .wake 6]
    let r : Round :=
      { walk := .ascending, first := [], order := fun s => List.range s.txns.size,
        between := fun _ => [] }
    s.callers = [0, 1, 2] ∧ s.unfinished = 3 ∧ (s.drain [r, r, r]).1.sleepers = [] ∧
      (∀ k, ((s.drain [r, r, r]).1.queue k).requests = []) ∧
      (∀ h, ((s.drain [r, r, r]).1.txn h).locks = ∅) ∧ ∀ o ∈ (s.drain [r, r, r]).2, o = .done := by
  intro s r
  have reach : Reachable { resolveAll := false } (fun s e => e.Fair (fun _ => 0) s ∧
      e.Undisturbed s ∧ e.KeepsRegister ∧ e.SetsNoState) s :=
    Reachable.afterAll Walk.complete_ascending .fresh (by decide +kernel)
  have complete : r.Complete s :=
    ⟨Walk.complete_ascending, fun _ _ => List.mem_range.1, fun _ _ lt _ _ => List.mem_range.2 lt⟩
  refine ⟨by decide +kernel, by decide +kernel, ?_⟩
  exact drains reach (by decide +kernel) (by decide +kernel) (by simpa using complete)
    (by decide +kernel)

end Engine

end TwoPhaseLocking

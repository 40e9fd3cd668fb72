import TwoPhaseLocking.Proofs.Timeless

/-! # The thread of the detector keeps to the timetable

What the thread does is settled by the actions on the detector, and an engine that counts the
passes due comes to the same. So the passes are those of the timetable.
-/

namespace TwoPhaseLocking

namespace Clocked

open Detector (Action)

variable {w : Walk} {limit : Nat} {c c₁ c₂ : Clocked} {a : Action} {as bs : List Action}

theorem RunsTo.unique (one : RunsTo w limit c c₁) (two : RunsTo w limit c c₂) : c₁ = c₂ := by
  induction one with
  | rest none =>
    cases two with
    | rest => rfl
    | step some => cases none.symm.trans some
  | step some _ ih =>
    cases two with
    | rest none => cases none.symm.trans some
    | step some' runs =>
      cases some.symm.trans some'
      exact ih runs

theorem Takes.unique (one : Takes w c a c₁) (two : Takes w c a c₂) : c₁ = c₂ := by
  cases one with
  | start runs =>
    cases two with
    | start runs' => exact runs.unique runs'
  | stop runs _ =>
    cases two with
    | stop runs' _ => rw [runs.unique runs']
  | advance runs =>
    cases two with
    | advance runs' => rw [runs.unique runs']

theorem TakesAll.unique (one : TakesAll w c as c₁) (two : TakesAll w c as c₂) : c₁ = c₂ := by
  induction one with
  | nil =>
    cases two with
    | nil => rfl
  | cons takes _ ih =>
    cases two with
    | cons takes' rest =>
      cases takes.unique takes'
      exact ih rest

theorem takesAll_nil : TakesAll w c [] c₂ ↔ c₂ = c := by
  constructor
  · rintro ⟨⟩
    rfl
  · rintro rfl
    exact .nil

theorem takesAll_cons :
    TakesAll w c (a :: as) c₂ ↔ ∃ c₁, Takes w c a c₁ ∧ TakesAll w c₁ as c₂ := by
  constructor
  · rintro ⟨⟩
    exact ⟨_, ‹_›, ‹_›⟩
  · rintro ⟨c₁, first, rest⟩
    exact .cons first rest

theorem takesAll_singleton : TakesAll w c [a] c₂ ↔ Takes w c a c₂ := by
  rw [takesAll_cons]
  constructor
  · rintro ⟨_, takes, ⟨⟩⟩
    exact takes
  · exact fun takes => ⟨_, takes, .nil⟩

theorem takesAll_append :
    TakesAll w c (as ++ bs) c₂ ↔ ∃ c₁, TakesAll w c as c₁ ∧ TakesAll w c₁ bs c₂ := by
  constructor
  · intro takes
    induction as generalizing c with
    | nil => exact ⟨c, .nil, takes⟩
    | cons a as ih =>
      obtain ⟨c', first, rest⟩ := takesAll_cons.1 takes
      obtain ⟨c₁, before, after⟩ := ih rest
      exact ⟨c₁, .cons first before, after⟩
  · rintro ⟨c₁, before, after⟩
    induction before with
    | nil => exact after
    | cons first _ ih => exact .cons first (ih after)

end Clocked

namespace Engine

open Detector (Action Stage passTimes periods)
open Clocked (RunsTo Takes TakesAll)

variable {w : Walk} {s : Engine} {limit : Nat} {c : Clocked} {passed : List Nat}
  {ended : List Completion}

/-- The thread waits until its next pass is due. -/
theorem next?_clocked (onTime : s.detector.OnTime s.config.interval)
    (later : ∀ t ∈ s.detector.since, limit < t + s.config.interval) :
    (s.clocked passed ended).next? w limit = none := by
  cases since : s.detector.since with
  | none => simp [Clocked.next?, clocked, since]
  | some t =>
    have ahead := later t since
    have waits := (onTime t since).2
    simp [Clocked.next?, clocked, since, Detector.Thread.next?, Nat.not_le.2 ahead,
      Nat.not_le.2 waits]

/-- The state after a pass that is made at this time. -/
def passAt (w : Walk) (s : Engine) (now : Nat) : Engine :=
  (s.pass w).1.timed ⟨now, some now⟩

theorem config_passAt (now : Nat) : (s.passAt w now).config = s.config :=
  (config_timed _ _).trans config_pass

theorem onTime_passAt (pos : 0 < s.config.interval) (now : Nat) :
    (s.passAt w now).detector.OnTime (s.passAt w now).config.interval := by
  rw [config_passAt]
  rintro t ⟨⟩
  exact ⟨Nat.le_refl now, Nat.lt_add_of_pos_right pos⟩

/-- When its wait is over the thread makes a pass and waits again. -/
theorem runsTo_pass (timeless : w.Timeless) (onTime : s.detector.OnTime s.config.interval)
    {t : Nat} (since : s.detector.since = some t) (due : t + s.config.interval ≤ limit)
    (runs : RunsTo w limit ((s.passAt w (t + s.config.interval)).clocked
      (passed ++ [t + s.config.interval]) (ended ++ (s.pass w).2)) c) :
    RunsTo w limit (s.clocked passed ended) c := by
  let next := t + s.config.interval
  let thread (stage : Stage) : Detector.Thread := { interval := s.config.interval, stage }
  let before (now : Nat) (stage : Stage) : Clocked :=
    { s.clocked passed ended with now := now, thread := some (thread stage) }
  let after (stage : Stage) : Clocked :=
    { engine := (s.pass w).1.timed {}, now := next, thread := some (thread stage),
      passed := passed ++ [next], ended := ended ++ (s.pass w).2 }
  have waits : s.detector.now < next := (onTime t since).2
  have starts : s.clocked passed ended = before s.detector.now (.waiting next) := by
    simp [clocked, since, before, thread, next]
  have elapses : (before s.detector.now (.waiting next)).next? w limit =
      some (before next (.waiting next)) := by
    simp [Clocked.next?, before, thread, Detector.Thread.next?, Nat.not_le.2 waits, next, due]
  have wakes : (before next (.waiting next)).next? w limit = some (before next .awake) := by
    simp [Clocked.next?, before, thread, Detector.Thread.next?]
  have looks : (before next .awake).next? w limit = some (before next .passing) := by
    simp [Clocked.next?, before, thread, Detector.Thread.next?]
  have passes : (before next .passing).next? w limit = some (after .looping) := by
    have moved : (s.timed {}).pass w = (s.pass w).map (·.timed {}) id := pass_timed timeless
    simp [Clocked.next?, before, after, thread, Detector.Thread.next?, clocked, moved]
  have ends : (after .looping).next? w limit =
      some ((s.passAt w next).clocked (passed ++ [next]) (ended ++ (s.pass w).2)) := by
    simp [Clocked.next?, after, thread, Detector.Thread.next?, clocked, passAt, config_pass, next]
  rw [starts]
  exact .step elapses (.step wakes (.step looks (.step passes (.step ends runs))))

/-- Counting the passes due, the next one comes to the same. -/
theorem advance_next {t : Nat} (pos : 0 < s.config.interval) (since : s.detector.since = some t)
    (waits : s.detector.now ≤ t + s.config.interval) :
    s.advance w (t + s.config.interval - s.detector.now) =
      (s.passAt w (t + s.config.interval), (s.pass w).2) := by
  rw [advance, ← Detector.length_timesOf, Detector.timesOf_next pos since waits,
    Detector.advance_next pos since waits]
  simp [passes, passAt, timed]

/-- Up to any time the thread makes the passes that fall due. The induction is on their number. -/
theorem exists_runsTo (timeless : w.Timeless) (pos : 0 < s.config.interval)
    (onTime : s.detector.OnTime s.config.interval) (passed : List Nat) (ended : List Completion)
    (ms : Nat) :
    ∃ c, RunsTo w (s.detector.now + ms) (s.clocked passed ended) c ∧
      { c with now := s.detector.now + ms } = (s.advance w ms).1.clocked
        (passed ++ s.detector.timesOf s.config (.advance ms)) (ended ++ (s.advance w ms).2) := by
  induction count : s.detector.due s.config.interval ms generalizing s ms passed ended with
  | zero =>
    have none := List.length_eq_zero_iff.1 ((Detector.length_timesOf ms).trans count)
    have rests : (s.clocked passed ended).next? w (s.detector.now + ms) = .none :=
      next?_clocked onTime fun t since => Detector.lt_of_due_zero pos count since
    refine ⟨_, .rest rests, ?_⟩
    rw [none, advance, count, Detector.advance, count]
    simp [passes, clocked, timed]
  | succ n ih =>
    obtain ⟨t, since, due⟩ := Detector.exists_of_due_succ pos count
    have waits : s.detector.now ≤ t + s.config.interval := Nat.le_of_lt (onTime t since).2
    obtain ⟨rest, rfl⟩ : ∃ rest, ms = (t + s.config.interval - s.detector.now) + rest :=
      ⟨s.detector.now + ms - (t + s.config.interval), by omega⟩
    have till : s.detector.now + (t + s.config.interval - s.detector.now + rest) =
        t + s.config.interval + rest := by omega
    have config := config_passAt (s := s) (w := w) (t + s.config.interval)
    have pos' : 0 < (s.passAt w (t + s.config.interval)).config.interval := by rwa [config]
    have left : (s.passAt w (t + s.config.interval)).detector.due
        (s.passAt w (t + s.config.interval)).config.interval rest = n := by
      rw [Detector.due_add, ← Detector.length_timesOf, Detector.timesOf_next pos since waits,
        Detector.advance_next pos since waits, List.length_singleton, Nat.add_comm] at count
      rw [config]
      exact Nat.succ.inj count
    obtain ⟨c, runs, same⟩ := ih pos' (onTime_passAt pos _)
      (passed ++ [t + s.config.interval]) (ended ++ (s.pass w).2) rest left
    refine ⟨c, runsTo_pass timeless onTime since due (till ▸ runs), ?_⟩
    rw [config] at same
    rw [till, advance_add timeless, advance_next pos since waits, Detector.timesOf_add,
      Detector.timesOf_next pos since waits, Detector.advance_next pos since waits,
      ← List.append_assoc, Prod.map_snd, ← List.append_assoc]
    exact same

theorem next?_clocked_now (onTime : s.detector.OnTime s.config.interval) :
    (s.clocked passed ended).next? w s.detector.now = none :=
  next?_clocked onTime fun t since => (onTime t since).2

theorem startDetector_of_disabled (disabled : s.config.enabled = false) : s.startDetector = s := by
  rw [startDetector, disabled, if_neg Bool.false_ne_true]

theorem startDetector_of_running {t : Nat} (since : s.detector.since = some t) :
    s.startDetector = s := by
  rw [startDetector, Detector.start_of_running since]
  exact ite_self s

theorem takes_start (pos : 0 < s.config.interval)
    (onTime : s.detector.OnTime s.config.interval) :
    Takes w (s.clocked passed ended) .start (s.startDetector.clocked passed ended) := by
  have unmoved (same : s.startDetector = s)
      (spawns : (s.clocked passed ended).spawn = s.clocked passed ended) :
      Takes w (s.clocked passed ended) .start (s.startDetector.clocked passed ended) := by
    rw [same]
    exact .start (spawns.symm ▸ .rest (next?_clocked_now onTime))
  cases enabled : s.config.enabled with
  | false =>
    exact unmoved (startDetector_of_disabled enabled) (by simp [Clocked.spawn, clocked, enabled])
  | true =>
    cases since : s.detector.since with
    | some t =>
      exact unmoved (startDetector_of_running since) (by simp [Clocked.spawn, clocked, since])
    | none =>
      have started : s.startDetector = s.timed s.detector.start := by
        rw [startDetector, if_pos enabled]
        rfl
      have waits : ((s.clocked passed ended).spawn).next? w s.detector.now =
          some ((s.timed s.detector.start).clocked passed ended) := by
        simp [Clocked.spawn, Clocked.next?, Detector.Thread.next?, clocked, Detector.start, enabled,
          since]
      rw [started]
      exact .start (.step waits (.rest (next?_clocked_now (onTime.start pos))))

theorem takes_stop :
    Takes w (s.clocked passed ended) .stop (s.stopDetector.clocked passed ended) := by
  cases since : s.detector.since with
  | none =>
    have still : ((s.clocked passed ended).signal).next? w s.detector.now = none := by
      simp [Clocked.signal, Clocked.next?, clocked, since]
    exact .stop (.rest still) (by simp [Clocked.isJoinable, Clocked.signal, clocked, since])
  | some t =>
    let thread (stage : Stage) : Clocked := { s.clocked passed ended with
      thread := some { interval := s.config.interval, stage, stopped := true } }
    have told : (s.clocked passed ended).signal = thread (.waiting (t + s.config.interval)) := by
      simp [Clocked.signal, clocked, since, thread]
    have wakes : (thread (.waiting (t + s.config.interval))).next? w s.detector.now =
        some (thread .awake) := by
      simp [Clocked.next?, thread, Detector.Thread.next?]
    have leaves : (thread .awake).next? w s.detector.now = some (thread .ended) := by
      simp [Clocked.next?, thread, Detector.Thread.next?]
    have rests : (thread .ended).next? w s.detector.now = none := by
      simp [Clocked.next?, thread, Detector.Thread.next?]
    have runs : RunsTo w s.detector.now (s.clocked passed ended).signal (thread .ended) := by
      rw [told]
      exact .step wakes (.step leaves (.rest rests))
    have stopped : Takes w (s.clocked passed ended) .stop { thread .ended with thread := none } :=
      .stop runs (by simp [Clocked.isJoinable, thread])
    exact stopped

theorem takes_undergo (timeless : w.Timeless) (pos : 0 < s.config.interval)
    (onTime : s.detector.OnTime s.config.interval) (passed : List Nat) (ended : List Completion)
    (a : Action) :
    Takes w (s.clocked passed ended) a ((s.undergo w a).1.clocked
      (passed ++ s.detector.timesOf s.config a) (ended ++ (s.undergo w a).2)) := by
  cases a with
  | start =>
    rw [undergo, Detector.timesOf, List.append_nil, List.append_nil]
    exact takes_start pos onTime
  | stop =>
    rw [undergo, Detector.timesOf, List.append_nil, List.append_nil]
    exact takes_stop
  | advance ms =>
    obtain ⟨c, runs, same⟩ := exists_runsTo timeless pos onTime passed ended ms
    exact same ▸ .advance runs

theorem detector_undergo (a : Action) :
    (s.undergo w a).1.detector = s.detector.undergo s.config a := by
  cases a with
  | start =>
    rw [undergo, startDetector, Detector.undergo]
    split
    · rfl
    · rfl
  | stop | advance => rfl

theorem config_undergo (a : Action) : (s.undergo w a).1.config = s.config := by
  cases a with
  | start =>
    rw [undergo, startDetector]
    split
    · rfl
    · rfl
  | stop => rfl
  | advance ms => exact config_passes _

theorem config_undergoAll (as : List Action) : (s.undergoAll w as).1.config = s.config := by
  induction as generalizing s with
  | nil => rfl
  | cons a as ih => rw [undergoAll, Prod.map_fst, id, ih, config_undergo]

theorem onTime_undergo (pos : 0 < s.config.interval)
    (onTime : s.detector.OnTime s.config.interval) (a : Action) :
    (s.undergo w a).1.detector.OnTime (s.undergo w a).1.config.interval := by
  rw [detector_undergo, config_undergo]
  exact onTime.undergo pos a

/-- An engine that counts the passes due comes to what the thread does. -/
theorem takesAll_undergoAll (timeless : w.Timeless) (pos : 0 < s.config.interval)
    (onTime : s.detector.OnTime s.config.interval) (passed : List Nat) (ended : List Completion)
    (as : List Action) :
    TakesAll w (s.clocked passed ended) as ((s.undergoAll w as).1.clocked
      (passed ++ passTimes s.config s.detector as) (ended ++ (s.undergoAll w as).2)) := by
  induction as generalizing s passed ended with
  | nil =>
    rw [undergoAll, passTimes, List.append_nil, List.append_nil]
    exact .nil
  | cons a as ih =>
    have later := ih (by rwa [config_undergo]) (onTime_undergo (w := w) pos onTime a)
      (passed ++ s.detector.timesOf s.config a) (ended ++ (s.undergo w a).2)
    rw [detector_undergo, config_undergo, List.append_assoc, List.append_assoc] at later
    exact .cons (takes_undergo timeless pos onTime passed ended a) later

theorem onTime_undergoAll (pos : 0 < s.config.interval)
    (onTime : s.detector.OnTime s.config.interval) (as : List Action) :
    (s.undergoAll w as).1.detector.OnTime (s.undergoAll w as).1.config.interval := by
  induction as generalizing s with
  | nil => exact onTime
  | cons a as ih => exact ih (by rwa [config_undergo]) (onTime_undergo pos onTime a)

theorem undergoAll_pieces (timeless : w.Timeless) (pos : 0 < s.config.interval)
    (onTime : s.detector.OnTime s.config.interval) (pieces : List Nat) :
    s.undergoAll w (pieces.map .advance) = s.advance w pieces.sum := by
  induction pieces generalizing s with
  | nil =>
    rw [List.map_nil, undergoAll, List.sum_nil, advance, onTime.due_zero, onTime.advance_zero]
    rfl
  | cons ms pieces ih =>
    have onTime' := onTime_undergo (w := w) pos onTime (.advance ms)
    rw [List.map_cons, undergoAll, ih (by rwa [config_undergo]) onTime', List.sum_cons,
      advance_add timeless]
    rfl

/-- The thread does not tell pieces of time apart. -/
theorem takesAll_pieces (timeless : w.Timeless) (pos : 0 < s.config.interval)
    (onTime : s.detector.OnTime s.config.interval) (pieces : List Nat) :
    TakesAll w (s.clocked passed ended) (pieces.map .advance) c ↔
      Takes w (s.clocked passed ended) (.advance pieces.sum) c := by
  have cut := takesAll_undergoAll timeless pos onTime passed ended (pieces.map .advance)
  rw [undergoAll_pieces timeless pos onTime, onTime.passTimes_pieces pos] at cut
  have whole := takes_undergo timeless pos onTime passed ended (.advance pieces.sum)
  constructor
  · intro takes
    exact takes.unique cut ▸ whole
  · intro takes
    exact takes.unique whole ▸ cut

theorem isSome_thread_clocked :
    (s.clocked passed ended).thread.isSome = s.detector.isRunning := Option.isSome_map

/-- A thread that is there already is not started once more. -/
theorem takes_start_iff (pos : 0 < s.config.interval)
    (onTime : s.detector.OnTime s.config.interval)
    (there : (s.clocked passed ended).thread.isSome = true) :
    Takes w (s.clocked passed ended) .start c ↔ c = s.clocked passed ended := by
  obtain ⟨t, since⟩ := Option.isSome_iff_exists.1 (isSome_thread_clocked.symm.trans there)
  have started : Takes w (s.clocked passed ended) .start (s.startDetector.clocked passed ended) :=
    takes_start pos onTime
  rw [startDetector_of_running since] at started
  constructor
  · exact fun takes => takes.unique started
  · rintro rfl
    exact started

/-- The thread comes to rest, and there is one state it comes to rest in. -/
theorem takesAll_iff (timeless : w.Timeless) (pos : 0 < s.config.interval)
    (onTime : s.detector.OnTime s.config.interval) (as : List Action) :
    TakesAll w (s.clocked [] []) as c ↔ c = (s.undergoAll w as).1.clocked
      (passTimes s.config s.detector as) (s.undergoAll w as).2 := by
  have takes := takesAll_undergoAll timeless pos onTime [] [] as
  rw [List.nil_append, List.nil_append] at takes
  constructor
  · exact fun takes' => takes'.unique takes
  · rintro rfl
    exact takes

/-- Whatever makes no difference to the thread after some actions may be done then. -/
theorem takesAll_congr (timeless : w.Timeless) (pos : 0 < s.config.interval)
    (onTime : s.detector.OnTime s.config.interval) {xs as bs ys : List Action}
    (same : ∀ (s' : Engine) passed ended, 0 < s'.config.interval →
      s'.detector.OnTime s'.config.interval →
      TakesAll w (s.clocked [] []) xs (s'.clocked passed ended) →
      ∀ c, TakesAll w (s'.clocked passed ended) as c ↔ TakesAll w (s'.clocked passed ended) bs c) :
    TakesAll w (s.clocked [] []) (xs ++ (as ++ ys)) c ↔
      TakesAll w (s.clocked [] []) (xs ++ (bs ++ ys)) c := by
  simp only [Clocked.takesAll_append]
  refine exists_congr fun c₁ => and_congr_right fun takes => exists_congr fun c₂ =>
    and_congr_left fun _ => ?_
  have there := (takesAll_iff timeless pos onTime xs).1 takes
  rw [there] at takes ⊢
  exact same _ _ _ (by rwa [config_undergoAll]) (onTime_undergoAll pos onTime xs) takes c₂

/-- For any lock manager whose detector is not running, and whatever is done with the detector
while time goes by: the thread always comes to rest, at one outcome, and an engine that counts the
passes due comes to the same. Passes are made in ascending order, exactly at the whole intervals
after the start of a period in which the detector runs, up to the end of the period, and none are
made by a detector that may not be started. It does not matter in how many pieces time goes by, or
whether a running detector is started once more. -/
theorem passes_on_timetable (timeless : w.Timeless) (idle : s.detector.isRunning = false)
    (pos : 0 < s.config.interval) :
    (∀ as, ∃ c, (∀ c', TakesAll w (s.clocked [] []) as c' ↔ c' = c) ∧
      c = (s.undergoAll w as).1.clocked c.passed (s.undergoAll w as).2 ∧
      c.passed.Pairwise (· < ·) ∧
      (∀ t, t ∈ c.passed ↔ s.config.enabled = true ∧ ∃ p ∈ periods s.detector.now none as,
        ∃ k, 1 ≤ k ∧ t = p.1 + k * s.config.interval ∧ t ≤ p.2) ∧
      c.passed.length = if s.config.enabled then
        ((periods s.detector.now none as).map fun p => (p.2 - p.1) / s.config.interval).sum
        else 0) ∧
    (∀ (pieces : List Nat) xs ys c,
      TakesAll w (s.clocked [] []) (xs ++ .advance pieces.sum :: ys) c ↔
        TakesAll w (s.clocked [] []) (xs ++ (pieces.map .advance ++ ys)) c) ∧
    ∀ xs ys c₁ c, TakesAll w (s.clocked [] []) xs c₁ → c₁.thread.isSome = true →
      (TakesAll w (s.clocked [] []) (xs ++ .start :: ys) c ↔
        TakesAll w (s.clocked [] []) (xs ++ ys) c) := by
  have idle : s.detector.since = none := by simpa [Detector.isRunning] using idle
  have onTime : s.detector.OnTime s.config.interval := by simp [Detector.OnTime, idle]
  refine ⟨fun as => ⟨_, fun c' => takesAll_iff timeless pos onTime as, rfl, ?_, ?_, ?_⟩, ?_, ?_⟩
  · exact onTime.pairwise_passTimes pos
  · intro t
    change t ∈ passTimes s.config s.detector as ↔ _
    cases enabled : s.config.enabled with
    | false => simp [Detector.passTimes_of_disabled idle enabled]
    | true =>
      rw [Detector.passTimes_eq_timetable idle enabled, Detector.mem_timetable pos]
      exact (and_iff_right rfl).symm
  · change (passTimes s.config s.detector as).length = _
    cases enabled : s.config.enabled with
    | false =>
      rw [Detector.passTimes_of_disabled idle enabled]
      rfl
    | true =>
      rw [Detector.passTimes_eq_timetable idle enabled, Detector.length_timetable]
      rfl
  · intro pieces xs ys c
    change TakesAll w _ (xs ++ ([.advance pieces.sum] ++ ys)) c ↔ _
    refine takesAll_congr timeless pos onTime fun s' passed ended pos' onTime' _ c => ?_
    rw [takesAll_pieces timeless pos' onTime', Clocked.takesAll_singleton]
  · intro xs ys c₁ c first running
    change TakesAll w _ (xs ++ ([.start] ++ ys)) c ↔ TakesAll w _ (xs ++ ([] ++ ys)) c
    refine takesAll_congr timeless pos onTime fun s' passed ended pos' onTime' takes c => ?_
    rw [first.unique takes] at running
    rw [Clocked.takesAll_singleton, takes_start_iff pos' onTime' running, Clocked.takesAll_nil]

/-- For instance over a deadlock, with the detector started twice, stopped, and started again. -/
theorem passes_on_timetable_of_deadlock :
    let s := (fresh {}).afterAll .ascending
      [.op (.begin .repeatableRead), .op (.begin .repeatableRead),
        .op (.lock ⟨2, 0, .exclusive, .table 1⟩), .op (.lock ⟨3, 1, .exclusive, .table 2⟩),
        .op (.lock ⟨4, 0, .exclusive, .table 2⟩), .op (.lock ⟨5, 1, .exclusive, .table 1⟩)]
    s.detector.isRunning = false ∧ s.config.interval = 50 ∧
      ∃ c, TakesAll .ascending (s.clocked [] [])
          [.start, .advance 30, .start, .advance 95, .stop, .advance 75, .start, .advance 50] c ∧
        TakesAll .ascending (s.clocked [] [])
          [.start, .advance 30, .start, .advance 20, .advance 75, .stop, .advance 75, .start,
            .advance 50] c ∧
        TakesAll .ascending (s.clocked [] [])
          [.start, .advance 30, .advance 95, .stop, .advance 75, .start, .advance 50] c ∧
        c.passed.length = 3 ∧ 50 ∈ c.passed ∧ 100 ∈ c.passed ∧ 250 ∈ c.passed ∧
        c.ended = [⟨5, false⟩] := by
  intro s
  have idle : s.detector.isRunning = false := by decide +kernel
  have interval : s.config.interval = 50 := by decide +kernel
  have enabled : s.config.enabled = true := by decide +kernel
  have now : s.detector.now = 0 := by decide +kernel
  obtain ⟨outcome, pieces, again⟩ :=
    passes_on_timetable (s := s) Walk.timeless_ascending idle (by rw [interval]; decide)
  obtain ⟨c, unique, same, -, exactly, count⟩ := outcome
    [.start, .advance 30, .start, .advance 95, .stop, .advance 75, .start, .advance 50]
  obtain ⟨c₁, first, running, -⟩ := outcome [.start, .advance 30]
  rw [interval, now, enabled] at exactly count
  have takes := (unique c).2 rfl
  refine ⟨idle, interval, c, takes,
    (pieces [20, 75] [.start, .advance 30, .start] _ c).1 takes,
    (again [.start, .advance 30] _ c₁ c ((first c₁).2 rfl) ?_).1 takes, count, ?_, ?_, ?_, ?_⟩
  · have there : (s.undergoAll .ascending [.start, .advance 30]).1.detector.isRunning = true := by
      decide +kernel
    rw [running, isSome_thread_clocked]
    exact there
  · exact (exactly 50).2 ⟨rfl, (0, 125), by decide, 1, by decide⟩
  · exact (exactly 100).2 ⟨rfl, (0, 125), by decide, 2, by decide⟩
  · exact (exactly 250).2 ⟨rfl, (200, 250), by decide, 1, by decide⟩
  · have ended : (s.undergoAll .ascending [.start, .advance 30, .start, .advance 95, .stop,
        .advance 75, .start, .advance 50]).2 = [⟨5, false⟩] := by decide +kernel
    rw [same]
    exact ended

end Engine

end TwoPhaseLocking

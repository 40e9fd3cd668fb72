import Mathlib.Algebra.GroupWithZero.Nat
import TwoPhaseLocking.Config
import TwoPhaseLocking.Detector.Thread

/-! # The timetable of the background detector

A detector knows when it began its present wait, and not when it was started. All the same its
passes fall due at whole intervals after its start, however the time goes by and however often
it is started once more while it runs.
-/

namespace TwoPhaseLocking

namespace Detector

/-- Every whole interval after `s`, up to `e`. -/
def beats (interval s e : Nat) : List Nat :=
  (List.range ((e - s) / interval)).map fun k => s + (k + 1) * interval

section Beats

variable {interval s e : Nat}

theorem length_beats : (beats interval s e).length = (e - s) / interval := by
  rw [beats, List.length_map, List.length_range]

theorem mem_beats (pos : 0 < interval) {t : Nat} :
    t ∈ beats interval s e ↔ ∃ k, 1 ≤ k ∧ t = s + k * interval ∧ t ≤ e := by
  simp only [beats, List.mem_map, List.mem_range]
  constructor
  · rintro ⟨k, lt, rfl⟩
    have within : (k + 1) * interval ≤ e - s := (Nat.le_div_iff_mul_le pos).1 lt
    have some : 0 < (k + 1) * interval := Nat.mul_pos (Nat.succ_pos k) pos
    exact ⟨k + 1, Nat.succ_pos k, rfl, by omega⟩
  · rintro ⟨k, one, rfl, le⟩
    have within := (Nat.le_div_iff_mul_le pos).2 (Nat.le_sub_of_add_le' le)
    exact ⟨k - 1, by omega, by rw [Nat.sub_add_cancel one]⟩

theorem pairwise_beats (pos : 0 < interval) : (beats interval s e).Pairwise (· < ·) :=
  List.pairwise_map.2 <| List.pairwise_lt_range.imp fun lt =>
    Nat.add_lt_add_left (Nat.mul_lt_mul_of_pos_right (Nat.succ_lt_succ lt) pos) s

theorem beats_self : beats interval s s = [] := by
  rw [beats, Nat.sub_self, Nat.zero_div]
  rfl

theorem beats_next (pos : 0 < interval) : beats interval s (s + interval) = [s + interval] := by
  rw [beats, Nat.add_sub_cancel_left, Nat.div_self pos]
  simp

/-- Whole intervals may be counted from the last one that is over. -/
theorem sub_add_div (interval s e n : Nat) : (e + n - s) / interval =
    (e - s) / interval + (e + n - (s + (e - s) / interval * interval)) / interval := by
  obtain rfl | pos := Nat.eq_zero_or_pos interval
  · simp only [Nat.div_zero, Nat.add_zero]
  have whole := Nat.div_mul_le_self (e - s) interval
  obtain le | le := Nat.le_total s e
  · have rest : e + n - s = (e + n - (s + (e - s) / interval * interval)) +
        (e - s) / interval * interval := by omega
    rw [rest, Nat.add_mul_div_right _ _ pos, Nat.add_comm]
  · rw [Nat.sub_eq_zero_of_le le, Nat.zero_div, Nat.zero_mul, Nat.add_zero, Nat.zero_add]

theorem beats_append (n : Nat) : beats interval s (e + n) =
    beats interval s e ++ beats interval (s + (e - s) / interval * interval) (e + n) := by
  rw [beats, sub_add_div, List.range_add, List.map_append, List.map_map]
  congr 1
  refine List.map_congr_left fun k _ => ?_
  simp only [Function.comp_apply, Nat.add_mul, Nat.add_assoc]

end Beats

variable {config : Config} {interval t : Nat} {d : Detector} {a : Action} {as : List Action}

theorem due_add (d : Detector) (interval m n : Nat) :
    d.due interval (m + n) = d.due interval m + (d.advance interval m).due interval n := by
  rcases d with ⟨now, _ | t⟩
  · rfl
  · have halves := sub_add_div interval t (now + m) n
    rw [Nat.add_assoc] at halves
    exact halves.trans (by rw [← Nat.add_assoc]; rfl)

theorem advance_add (d : Detector) (interval m n : Nat) :
    d.advance interval (m + n) = (d.advance interval m).advance interval n := by
  have halves := due_add d interval m n
  rcases d with ⟨now, _ | t⟩
  · exact congrArg (Detector.mk · none) (Nat.add_assoc now m n).symm
  · rw [advance, halves, Nat.add_mul]
    simp only [advance, Option.map_some, Nat.add_assoc]

theorem start_of_running (since : d.since = some t) : d.start = d := by
  rcases d with ⟨now, _ | t'⟩
  · cases since
  · rfl

/-- What an action does to a detector. -/
def undergo (config : Config) (d : Detector) : Action → Detector
  | .start => if config.enabled then d.start else d
  | .stop => d.stop
  | .advance ms => d.advance config.interval ms

/-- When passes fall due during an action. -/
def timesOf (config : Config) (d : Detector) : Action → List Nat
  | .advance ms => d.since.elim [] fun t => beats config.interval t (d.now + ms)
  | .start | .stop => []

def passTimes (config : Config) : Detector → List Action → List Nat
  | _, [] => []
  | d, a :: as => d.timesOf config a ++ passTimes config (d.undergo config a) as

theorem length_timesOf (ms : Nat) :
    (d.timesOf config (.advance ms)).length = d.due config.interval ms := by
  rcases d with ⟨now, _ | t⟩
  · rfl
  · exact length_beats

/-- The next pass is the only one that falls due until it is made. -/
theorem timesOf_next (pos : 0 < config.interval) (since : d.since = some t)
    (waits : d.now ≤ t + config.interval) :
    d.timesOf config (.advance (t + config.interval - d.now)) = [t + config.interval] := by
  rw [timesOf, since, Option.elim_some, Nat.add_sub_of_le waits, beats_next pos]

theorem advance_next (pos : 0 < config.interval) (since : d.since = some t)
    (waits : d.now ≤ t + config.interval) :
    d.advance config.interval (t + config.interval - d.now) =
      ⟨t + config.interval, some (t + config.interval)⟩ := by
  rw [advance, ← length_timesOf, timesOf_next pos since waits, since, Nat.add_sub_of_le waits]
  simp

theorem timesOf_add (m n : Nat) : d.timesOf config (.advance (m + n)) =
    d.timesOf config (.advance m) ++
      (d.advance config.interval m).timesOf config (.advance n) := by
  rcases d with ⟨now, _ | t⟩
  · rfl
  · rw [timesOf, Option.elim_some, ← Nat.add_assoc, beats_append]
    rfl

theorem lt_of_due_zero (pos : 0 < interval) {ms : Nat} (none : d.due interval ms = 0)
    (since : d.since = some t) : d.now + ms < t + interval := by
  rw [due, since] at none
  have within := (Nat.div_eq_zero_iff_lt pos).1 none
  omega

theorem exists_of_due_succ (pos : 0 < interval) {ms n : Nat} (some : d.due interval ms = n + 1) :
    ∃ t, d.since = .some t ∧ t + interval ≤ d.now + ms := by
  rcases d with ⟨now, _ | t⟩
  · cases some
  · have within : (n + 1) * interval ≤ now + ms - t :=
      (Nat.le_div_iff_mul_le pos).1 (Nat.le_of_eq some.symm)
    rw [Nat.succ_mul] at within
    exact ⟨t, rfl, by change t + interval ≤ now + ms; omega⟩

/-- No pass is overdue. -/
def OnTime (interval : Nat) (d : Detector) : Prop :=
  ∀ t ∈ d.since, t ≤ d.now ∧ d.now < t + interval

theorem OnTime.start (onTime : d.OnTime interval) (pos : 0 < interval) :
    d.start.OnTime interval := by
  rcases d with ⟨now, _ | t⟩
  · rintro t ⟨⟩
    exact ⟨Nat.le_refl now, Nat.lt_add_of_pos_right pos⟩
  · exact onTime

theorem OnTime.advance (onTime : d.OnTime interval) (pos : 0 < interval) (ms : Nat) :
    (d.advance interval ms).OnTime interval := by
  rcases d with ⟨now, _ | t⟩
  · exact nofun
  · rintro t' ⟨⟩
    have le : t ≤ now := (onTime t rfl).1
    have whole := Nat.div_mul_le_self (now + ms - t) interval
    have next := Nat.lt_div_mul_add (a := now + ms - t) pos
    change t + (now + ms - t) / interval * interval ≤ now + ms ∧
      now + ms < t + (now + ms - t) / interval * interval + interval
    omega

theorem OnTime.undergo (onTime : d.OnTime config.interval) (pos : 0 < config.interval)
    (a : Action) : (d.undergo config a).OnTime config.interval := by
  cases a with
  | start =>
    rw [Detector.undergo]
    split
    · exact onTime.start pos
    · exact onTime
  | stop => exact nofun
  | advance ms => exact onTime.advance pos ms

theorem OnTime.due_zero (onTime : d.OnTime interval) : d.due interval 0 = 0 := by
  rcases d with ⟨now, _ | t⟩
  · rfl
  · have lt : now < t + interval := (onTime t rfl).2
    have le : t ≤ now := (onTime t rfl).1
    exact Nat.div_eq_of_lt (by change now - t < interval; omega)

theorem OnTime.advance_zero (onTime : d.OnTime interval) : d.advance interval 0 = d := by
  simp [Detector.advance, onTime.due_zero]

theorem now_le_undergo (a : Action) : d.now ≤ (d.undergo config a).now := by
  cases a with
  | start =>
    rw [undergo]
    split
    · exact Nat.le_refl _
    · exact Nat.le_refl _
  | stop => exact Nat.le_refl _
  | advance ms => exact Nat.le_add_right _ _

/-- The passes of an action are yet to come, and come no later than its end. -/
theorem OnTime.mem_timesOf (onTime : d.OnTime config.interval) (pos : 0 < config.interval)
    (due : t ∈ d.timesOf config a) : d.now < t ∧ t ≤ (d.undergo config a).now := by
  cases a with
  | start | stop => cases due
  | advance ms =>
    rcases d with ⟨now, _ | t'⟩
    · cases due
    · obtain ⟨k, one, rfl, le⟩ := (mem_beats pos).1 due
      have next : now < t' + config.interval := (onTime t' rfl).2
      have whole := Nat.mul_le_mul_right config.interval one
      exact ⟨by change now < _; omega, le⟩

theorem OnTime.lt_of_mem_passTimes (onTime : d.OnTime config.interval)
    (pos : 0 < config.interval) (due : t ∈ passTimes config d as) : d.now < t := by
  induction as generalizing d with
  | nil => cases due
  | cons a as ih =>
    rcases List.mem_append.1 due with now | later
    · exact (onTime.mem_timesOf pos now).1
    · exact Nat.lt_of_le_of_lt (now_le_undergo a) (ih (onTime.undergo pos a) later)

theorem pairwise_timesOf (pos : 0 < config.interval) : (d.timesOf config a).Pairwise (· < ·) := by
  cases a with
  | start | stop => exact .nil
  | advance ms =>
    rw [timesOf]
    cases d.since with
    | none => exact .nil
    | some t => exact pairwise_beats pos

theorem OnTime.pairwise_passTimes (onTime : d.OnTime config.interval) (pos : 0 < config.interval) :
    (passTimes config d as).Pairwise (· < ·) := by
  induction as generalizing d with
  | nil => exact .nil
  | cons a as ih =>
    have onTime' := onTime.undergo pos a
    exact List.pairwise_append.2 ⟨pairwise_timesOf pos, ih onTime', fun t now t' later =>
      Nat.lt_of_le_of_lt (onTime.mem_timesOf pos now).2 (onTime'.lt_of_mem_passTimes pos later)⟩

/-- Time may go by in any number of pieces. -/
theorem OnTime.passTimes_pieces (onTime : d.OnTime config.interval) (pos : 0 < config.interval)
    (pieces : List Nat) :
    passTimes config d (pieces.map .advance) = d.timesOf config (.advance pieces.sum) := by
  induction pieces generalizing d with
  | nil => exact (List.length_eq_zero_iff.1 ((length_timesOf 0).trans onTime.due_zero)).symm
  | cons ms pieces ih =>
    rw [List.map_cons, passTimes, Detector.undergo, ih (onTime.advance pos ms), List.sum_cons,
      timesOf_add]

/-- The periods during which a detector runs, from their starts to their ends, when it is running
since `began`. A start opens a period if none is open, a stop closes it, and the last one may be
open to the end. -/
def periods (now : Nat) (began : Option Nat) : List Action → List (Nat × Nat)
  | [] => (began.map (·, now)).toList
  | .start :: as => periods now (began.or (some now)) as
  | .stop :: as => (began.map (·, now)).toList ++ periods now none as
  | .advance ms :: as => periods (now + ms) began as

/-- The whole intervals of all these periods. -/
def timetable (interval : Nat) (ps : List (Nat × Nat)) : List Nat :=
  ps.flatMap fun p => beats interval p.1 p.2

theorem mem_timetable (pos : 0 < interval) {ps : List (Nat × Nat)} :
    t ∈ timetable interval ps ↔ ∃ p ∈ ps, ∃ k, 1 ≤ k ∧ t = p.1 + k * interval ∧ t ≤ p.2 := by
  simp only [timetable, List.mem_flatMap, mem_beats pos]

theorem length_timetable (ps : List (Nat × Nat)) :
    (timetable interval ps).length = (ps.map fun p => (p.2 - p.1) / interval).sum := by
  simp only [timetable, List.length_flatMap, length_beats]

theorem timetable_append (ps qs : List (Nat × Nat)) :
    timetable interval (ps ++ qs) = timetable interval ps ++ timetable interval qs :=
  List.flatMap_append

/-- A detector that runs since `began` began its present wait at the last whole interval. -/
structure RunsSince (interval : Nat) (began : Option Nat) (d : Detector) : Prop where
  waits : d.since = began.map fun s => s + (d.now - s) / interval * interval
  le : ∀ s ∈ began, s ≤ d.now

variable {began : Option Nat}

theorem runsSince_none (idle : d.since = none) : d.RunsSince interval none := ⟨idle, nofun⟩

theorem RunsSince.start (runs : d.RunsSince interval began) :
    d.start.RunsSince interval (began.or (some d.now)) := by
  obtain ⟨waits, le⟩ := runs
  cases began with
  | none => exact ⟨by simp [Detector.start, waits], by simp [Detector.start]⟩
  | some s => exact ⟨by simp [Detector.start, waits], le⟩

theorem RunsSince.advance (runs : d.RunsSince interval began) (ms : Nat) :
    (d.advance interval ms).RunsSince interval began := by
  obtain ⟨waits, le⟩ := runs
  cases began with
  | none => exact ⟨by simp [Detector.advance, waits], nofun⟩
  | some s =>
    refine ⟨?_, fun s' is => Nat.le_add_right_of_le (le s' is)⟩
    have halves := sub_add_div interval s d.now ms
    simp [Detector.advance, Detector.due, waits, halves, Nat.add_mul, Nat.add_assoc]

/-- The passes since the start of the open period, and those that actions lead to, are the
timetable of all periods. -/
theorem RunsSince.passTimes (runs : d.RunsSince config.interval began)
    (enabled : config.enabled = true) :
    timetable config.interval (began.map (·, d.now)).toList ++ passTimes config d as =
      timetable config.interval (periods d.now began as) := by
  induction as generalizing d began with
  | nil => exact List.append_nil _
  | cons a as ih =>
    cases a with
    | start =>
      have opened : timetable config.interval (began.map (·, d.now)).toList =
          timetable config.interval ((began.or (some d.now)).map (·, d.now)).toList := by
        cases began with
        | none => simp [timetable, beats_self]
        | some s => rfl
      rw [Detector.passTimes, undergo, if_pos enabled, timesOf, List.nil_append, opened]
      exact ih runs.start
    | stop =>
      rw [periods, timetable_append]
      exact congrArg (_ ++ ·) (ih (runsSince_none rfl))
    | advance ms =>
      have grown : timetable config.interval (began.map (·, d.now)).toList ++
            d.timesOf config (.advance ms) =
          timetable config.interval (began.map (·, d.now + ms)).toList := by
        rw [timesOf, runs.waits]
        cases began with
        | none => rfl
        | some s => simpa [timetable] using (beats_append ms).symm
      rw [Detector.passTimes, ← List.append_assoc, grown]
      exact ih (runs.advance ms)

theorem passTimes_eq_timetable (idle : d.since = none) (enabled : config.enabled = true) :
    passTimes config d as = timetable config.interval (periods d.now none as) :=
  (runsSince_none idle).passTimes enabled

theorem passTimes_of_disabled (idle : d.since = none) (disabled : config.enabled = false) :
    passTimes config d as = [] := by
  induction as generalizing d with
  | nil => rfl
  | cons a as ih =>
    have none : d.timesOf config a = [] := by
      cases a with
      | start | stop => rfl
      | advance ms => rw [timesOf, idle, Option.elim_none]
    have idle' : (d.undergo config a).since = .none := by
      cases a with
      | start =>
        rw [undergo, disabled, if_neg Bool.false_ne_true]
        exact idle
      | stop => rfl
      | advance ms =>
        rw [undergo, advance, idle]
        rfl
    rw [passTimes, none, ih idle', List.append_nil]

end Detector

end TwoPhaseLocking

import TwoPhaseLocking.Proofs.Wakeup

/-! # Calls look at their queues in any order

Whoever has been told something may be the next to look. `Looks` says where any number of such
looks lead and which calls return on the way, and `Settles` that nobody is left to look. Waking
calls by number and letting all of them look in turn are two ways among many.
-/

namespace TwoPhaseLocking.Engine

variable {tableOf : RowId → TableId} {s s' s'' : Engine} {v w : Sleeper} {h : Handle}
  {cs cs' : List Completion} {ok : Engine → Move → Prop}

/-- The call is up, and has not looked at its queue yet. -/
def getUp (s : Engine) (v : Sleeper) : Engine := { s with sleepers := s.sleepers.erase v }

/-- A sleeping call looks at its queue. It returns, or goes back to sleep. -/
def look (s : Engine) (v : Sleeper) : Engine × List Completion :=
  if s.isReady v then (s.finishSleeper v).map id ([·])
  else ({ s with sleepers := s.sleepers.replace v v.hushed }, [])

/-- Calls that had been told something have looked one after the other, and these have returned. -/
inductive Looks : Engine → List Completion → Engine → Prop where
  | none (s : Engine) : Looks s [] s
  | next {s s' : Engine} {v : Sleeper} {cs : List Completion} (asleep : v ∈ s.sleepers)
      (told : v.notified = true) (rest : Looks (s.look v).1 cs s') :
      Looks s ((s.look v).2 ++ cs) s'

/-- Calls have looked until nobody was left who had been told something. -/
structure Settles (s : Engine) (cs : List Completion) (s' : Engine) : Prop where
  looks : s.Looks cs s'
  quiet : s'.isQuiet = true

theorem Looks.single (asleep : v ∈ s.sleepers) (told : v.notified = true) :
    s.Looks (s.look v).2 (s.look v).1 := by
  rw [← List.append_nil (s.look v).2]
  exact .next asleep told (.none _)

theorem Looks.trans (first : s.Looks cs s') (second : s'.Looks cs' s'') :
    s.Looks (cs ++ cs') s'' := by
  induction first with
  | none => exact second
  | next asleep told _ ih =>
    rw [List.append_assoc]
    exact .next asleep told (ih second)

/-- Nobody looks in a quiet state. -/
theorem not_told_of_isQuiet (quiet : s.isQuiet = true) (asleep : v ∈ s.sleepers) :
    v.notified ≠ true := by
  rw [untold_of_isQuiet quiet asleep]
  exact Bool.false_ne_true

theorem look_aborted (aborted : (s.txn v.handle).isAborted = true) :
    s.look v = (((((s.getUp v).updateQueue v.resource.key
      (·.clearUpgrading (s.txn v.handle).id)).updateQueue v.resource.key
        (·.remove (s.txn v.handle).id)).grantAndNotify v.resource.key).tally Stats.abortedWait,
      [⟨v.call, false⟩]) := by
  have ready : s.isReady v = true := by simp [isReady, aborted]
  have ended := conclude_aborted (s := s.getUp v) (c := v.lockCall) aborted
  rw [getUp] at ended
  rw [look, if_pos ready, finishSleeper, ended]
  rfl

theorem look_granted (live : (s.txn v.handle).isAborted = false)
    (granted : (s.queue v.resource.key).isGranted (s.txn v.handle).id = true) :
    s.look v = (((s.getUp v).updateQueue v.resource.key
      (·.clearUpgrading (s.txn v.handle).id)).updateTxn v.handle (·.record v.resource v.mode),
      [⟨v.call, true⟩]) := by
  have ready : s.isReady v = true := by simp [isReady, granted]
  have ended := conclude_live (s := s.getUp v) (c := v.lockCall) live
  rw [getUp] at ended
  rw [look, if_pos ready, finishSleeper, ended]
  rfl

theorem look_waits (waits : s.isReady v = false) :
    s.look v = ({ s with sleepers := s.sleepers.replace v v.hushed }, []) := by
  rw [look, if_neg (by simp [waits])]

theorem replace_hushed (asleep : v ∈ s.sleepers) : ∃ xs ys, s.sleepers = xs ++ v :: ys ∧
    s.sleepers.replace v v.hushed = xs ++ v.hushed :: ys := by
  obtain ⟨xs, ys, first, split, -⟩ := List.exists_erase_eq asleep
  refine ⟨xs, ys, split, ?_⟩
  rw [split, List.replace_append_right first, List.replace_cons_self]

/-- A look is a move like others. -/
theorem look_path (asleep : v ∈ s.sleepers) (take : ok s (.take v)) (quit : ok s (.quit v))
    (doze : ok s (.doze v)) (side : ∀ s, ok s .side) : Path ok s (s.look v).1 := by
  cases ready : s.isReady v with
  | true =>
    rw [look, if_pos ready]
    exact finishSleeper_path asleep ready take quit side
  | false =>
    obtain ⟨xs, ys, split, replaced⟩ := replace_hushed asleep
    rw [look_waits ready, replaced]
    exact .move (.doze split ready) doze

theorem Looks.path (looks : s.Looks cs s') (take : ∀ s v, ok s (.take v))
    (quit : ∀ s v, ok s (.quit v)) (doze : ∀ s v, ok s (.doze v)) (side : ∀ s, ok s .side) :
    Path ok s s' := by
  induction looks with
  | none => exact .refl _
  | next asleep _ _ ih => exact (look_path asleep (take _ _) (quit _ _) (doze _ _) side).trans ih

theorem Looks.winding (looks : s.Looks cs s') : Path (fun _ m => m.Winding) s s' :=
  looks.path (fun _ _ => trivial) (fun _ _ => trivial) (fun _ _ => trivial) fun _ => trivial

theorem Looks.books (looks : s.Looks cs s') (books : s.Books tableOf) : s'.Books tableOf :=
  books_of_path books looks.winding

/-- Whoever has been told something sleeps on, and remembers it, until he looks himself. -/
theorem mem_look (there : v ∈ s.sleepers) (asleep : w ∈ s.sleepers) (told : w.notified = true)
    (other : w ≠ v) : w ∈ (s.look v).1.sleepers := by
  have left : w ∈ (s.getUp v).sleepers := (List.mem_erase_of_ne other).2 asleep
  cases aborted : (s.txn v.handle).isAborted with
  | true =>
    rw [look_aborted aborted]
    refine mem_sleepers_grantAndNotify.2 ⟨w, left, ?_⟩
    split
    · rw [← told]
    · rfl
  | false =>
    cases granted : (s.queue v.resource.key).isGranted (s.txn v.handle).id with
    | true =>
      rw [look_granted aborted granted]
      exact left
    | false =>
      obtain ⟨xs, ys, split, replaced⟩ := replace_hushed there
      rw [look_waits (by simp [isReady, aborted, granted]), replaced]
      exact List.perm_middle.mem_iff.2 (List.mem_cons_of_mem _ (mem_rest_of_ne split asleep other))

/-- Whoever is woken by number, and has been told something, looks at his queue. -/
theorem wake_look (n : Nat) : s.wake n = (s, none) ∨ ∃ v ∈ s.sleepers, v.notified = true ∧
    (s.wake n).1 = (s.look v).1 ∧ (s.wake n).2.toList = (s.look v).2 := by
  unfold wake
  split
  · exact .inl rfl
  · rename_i v found
    have able := List.find?_some found
    rw [Bool.and_eq_true] at able
    refine .inr ⟨v, List.mem_of_find?_eq_some found, able.2, ?_⟩
    rw [look]
    split
    · exact ⟨rfl, rfl⟩
    · exact ⟨rfl, rfl⟩

theorem looks_wake (n : Nat) : s.Looks (s.wake n).2.toList (s.wake n).1 := by
  rcases s.wake_look n with same | ⟨v, asleep, told, state, ended⟩
  · rw [same]
    exact .none s
  · rw [state, ended]
    exact .single asleep told

/-- Those who cannot go on look one after the other. The induction is on the calls that have not
looked. -/
theorem looks_doze (waits : ∀ v ∈ s.sleepers, v.notified = true → s.isReady v = false) :
    s.Looks [] s.doze := by
  have each : ∀ xs ys, (∀ v ∈ ys, v.notified = true → s.isReady v = false) →
      Looks { s with sleepers := xs.map Sleeper.hushed ++ ys } []
        { s with sleepers := (xs ++ ys).map Sleeper.hushed } := by
    intro xs ys
    induction ys generalizing xs with
    | nil =>
      intro _
      rw [List.append_nil, List.append_nil]
      exact .none _
    | cons v ys ih =>
      intro waits
      have rest := ih (xs ++ [v]) fun w hw => waits w (List.mem_cons_of_mem _ hw)
      simp only [List.map_append, List.map_cons, List.map_nil, List.append_assoc,
        List.singleton_append] at rest
      rw [List.map_append, List.map_cons]
      cases told : v.notified with
      | false =>
        have same : v.hushed = v := by rw [Sleeper.hushed, ← told]
        rw [same] at rest ⊢
        exact rest
      | true =>
        have first : v ∉ xs.map Sleeper.hushed := by
          intro there
          obtain ⟨w, -, rfl⟩ := List.mem_map.1 there
          cases told
        have looked := Looks.single (s := { s with sleepers := xs.map Sleeper.hushed ++ v :: ys })
          (v := v) (by simp) told
        rw [look_waits (s := { s with sleepers := xs.map Sleeper.hushed ++ v :: ys })
          (waits v List.mem_cons_self told), List.replace_append_right first,
          List.replace_cons_self] at looked
        exact looked.trans rest
  exact each [] s.sleepers waits

theorem looks_settleWithin {n : Nat} (enough : s.sleepers.length ≤ n) :
    s.Looks (settleWithin n s).2 (settleWithin n s).1 := by
  induction n generalizing s with
  | zero =>
    have nobody : s.sleepers = [] := List.length_eq_zero_iff.1 (Nat.le_zero.1 enough)
    exact looks_doze (by simp [nobody])
  | succ n ih =>
    rw [settleWithin]
    split
    · rename_i nobody
      refine looks_doze fun v asleep told => ?_
      simpa [told] using List.find?_eq_none.1 nobody v asleep
    · rename_i v found
      have asleep := List.mem_of_find?_eq_some found
      have able := List.find?_some found
      rw [Bool.and_eq_true] at able
      have looked := Looks.single asleep able.1
      rw [look, if_pos able.2] at looked
      have fewer : (s.finishSleeper v).1.sleepers.length ≤ n := by
        have one := length_finishSleeper asleep
        omega
      exact looked.trans (ih fewer)

/-- Letting the first look who can go on, again and again, is one way to let all look. -/
theorem settles_settle (s : Engine) : s.Settles s.settle.2 s.settle.1 :=
  ⟨looks_settleWithin (Nat.le_refl _), isQuiet_settleWithin _⟩

/-- The transaction is aborted, and its calls have been told so. -/
structure Doomed (s : Engine) (h : Handle) : Prop where
  aborted : (s.txn h).isAborted = true
  told : ∀ v ∈ s.sleepers, v.handle = h → v.notified = true

/-- Nothing but looking at its queue makes a call forget what it was told, and aborted calls do not
go back to sleep. -/
theorem Doomed.look (doomed : s.Doomed h) (asleep : v ∈ s.sleepers) : (s.look v).1.Doomed h := by
  have path : Path (fun _ m => m.Winding) s (s.look v).1 :=
    look_path asleep trivial trivial trivial fun _ => trivial
  refine ⟨(winds_of_path path).aborted h doomed.aborted, fun w there mine => ?_⟩
  cases aborted : (s.txn v.handle).isAborted with
  | true =>
    rw [look_aborted aborted] at there
    obtain ⟨u, left, rfl⟩ := mem_sleepers_grantAndNotify.1 there
    have before : u ∈ s.sleepers := List.mem_of_mem_erase left
    split at mine
    · rw [if_pos ‹_›]
    · rw [if_neg ‹_›]
      exact doomed.told u before mine
  | false =>
    cases granted : (s.queue v.resource.key).isGranted (s.txn v.handle).id with
    | true =>
      rw [look_granted aborted granted] at there
      exact doomed.told w (List.mem_of_mem_erase there) mine
    | false =>
      obtain ⟨xs, ys, split, replaced⟩ := replace_hushed asleep
      rw [look_waits (by simp [isReady, aborted, granted]), replaced,
        List.perm_middle.mem_iff] at there
      rcases List.mem_cons.1 there with rfl | before
      · -- the one that dozes off has a transaction that is not aborted
        have dead := doomed.aborted
        rw [← mine, show (s.txn v.hushed.handle).isAborted = false from aborted] at dead
        cases dead
      · exact doomed.told w ((rest_sublist split).subset before) mine

/-- Once all have looked who have been told something, the calls of an aborted transaction have
returned without their locks. -/
theorem Looks.returns (looks : s.Looks cs s') (doomed : s.Doomed h) : s'.Doomed h ∧
    ∀ v ∈ s.sleepers, v.handle = h → v ∈ s'.sleepers ∨ ⟨v.call, false⟩ ∈ cs := by
  induction looks with
  | none => exact ⟨doomed, fun _ asleep _ => .inl asleep⟩
  | @next s s' u cs there told rest ih =>
    obtain ⟨doomed', returned⟩ := ih (doomed.look there)
    refine ⟨doomed', fun v asleep mine => ?_⟩
    by_cases self : v = u
    · right
      rw [← self, look_aborted (by rw [mine]; exact doomed.aborted)]
      exact List.mem_cons_self
    · have still := mem_look there asleep (doomed.told v asleep mine) self
      exact (returned v still mine).imp id (List.mem_append_right _)

theorem Settles.returns (settles : s.Settles cs s') (doomed : s.Doomed h) :
    ¬ s'.HasCall h ∧ ∀ v ∈ s.sleepers, v.handle = h → ⟨v.call, false⟩ ∈ cs := by
  obtain ⟨doomed', returned⟩ := settles.looks.returns doomed
  have gone (v : Sleeper) (asleep : v ∈ s'.sleepers) (mine : v.handle = h) : False :=
    not_told_of_isQuiet settles.quiet asleep (doomed'.told v asleep mine)
  exact ⟨fun ⟨v, asleep, mine⟩ => gone v asleep mine,
    fun v asleep mine => (returned v asleep mine).resolve_left fun still => gone v still mine⟩

end TwoPhaseLocking.Engine

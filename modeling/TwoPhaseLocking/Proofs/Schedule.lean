import Mathlib.Algebra.Order.Group.Multiset
import Mathlib.Order.WellFounded
import TwoPhaseLocking.Proofs.Leave
import TwoPhaseLocking.Proofs.Looks
import TwoPhaseLocking.Proofs.Walks

/-! # Scheduling does not matter

Of two calls that have been told something either may look first. If both have an answer by then,
neither takes it from the other. A call that has none sleeps on, and if the other one withdraws from
the same queue it is told to look again, so it might as well not have looked. So all orders come to
the same in the end, and there is an end to it, for a look ends a call or settles it until others
end.
-/

namespace TwoPhaseLocking

/-- A sleeping call looks at its queue, and returns what is given or sleeps on. -/
def Stroke.look (id : TxnId) (v : Sleeper) : Option Bool → Stroke
  | some true => {
      key := v.resource.key
      queue := (·.clearUpgrading id)
      handle := v.handle
      txn := (·.record v.resource v.mode)
      sleeper := fun w => if w.handle = v.handle then none else some w }
  | some false => {
      key := v.resource.key
      queue := (·.leave id)
      handle := v.handle
      sleeper := fun w => if w.handle = v.handle then none else some (w.tell v.resource.key)
      stats := Stats.abortedWait }
  | none => {
      key := v.resource.key
      handle := v.handle
      sleeper := fun w => if w.handle = v.handle then some w.hushed else some w }

namespace Engine

variable {tableOf : RowId → TableId} {config : Config} {s s' s₁ s₂ : Engine} {v w : Sleeper}
  {cs cs₁ cs₂ : List Completion}

/-- What a call returns when it looks at its queue. None means that it sleeps on. -/
def answer (s : Engine) (v : Sleeper) : Option Bool :=
  if (s.txn v.handle).isAborted then some false
  else if (s.queue v.resource.key).isGranted (s.txn v.handle).id then some true
  else none

theorem answer_eq_none : s.answer v = none ↔ s.isReady v = false := by
  unfold answer isReady
  cases (s.txn v.handle).isAborted <;> simp

/-- One of the calls asleep is dealt with, and the others are left as they are. -/
theorem Books.filterMap_sleepers (books : s.Books tableOf) (asleep : v ∈ s.sleepers)
    (o : Sleeper → Option Sleeper) : ∃ xs ys, v ∉ xs ∧ s.sleepers = xs ++ v :: ys ∧
      s.sleepers.filterMap (fun w => if w.handle = v.handle then o w else some w) =
        xs ++ ((o v).toList ++ ys) := by
  obtain ⟨xs, ys, first, split, -⟩ := List.exists_erase_eq asleep
  have once := books.calls
  rw [callers, split, List.map_append, List.map_cons, List.nodup_middle, List.nodup_cons,
    ← List.map_append] at once
  have others (w : Sleeper) (there : w ∈ xs ++ ys) : w.handle ≠ v.handle :=
    fun same => once.1 (List.mem_map.2 ⟨w, there, same⟩)
  have alone (zs : List Sleeper) (sub : ∀ w ∈ zs, w ∈ xs ++ ys) :
      zs.filterMap (fun w => if w.handle = v.handle then o w else some w) = zs := by
    refine (List.filterMap_congr fun w there => ?_).trans List.filterMap_some
    exact if_neg (others w (sub w there))
  refine ⟨xs, ys, first, split, ?_⟩
  rw [split, List.filterMap_append, List.filterMap_cons, alone xs (by simp +contextual),
    alone ys (by simp +contextual), if_pos rfl]
  cases o v <;> rfl

theorem Books.sleepers_getUp (books : s.Books tableOf) (asleep : v ∈ s.sleepers) :
    (s.getUp v).sleepers =
      s.sleepers.filterMap fun w => if w.handle = v.handle then none else some w := by
  obtain ⟨xs, ys, first, split, rest⟩ := books.filterMap_sleepers asleep fun _ => none
  rw [rest, getUp, split, List.erase_append_right _ first, List.erase_cons_head]
  rfl

theorem Books.sleepers_hushed (books : s.Books tableOf) (asleep : v ∈ s.sleepers) :
    s.sleepers.replace v v.hushed =
      s.sleepers.filterMap fun w => if w.handle = v.handle then some w.hushed else some w := by
  obtain ⟨xs, ys, first, split, rest⟩ := books.filterMap_sleepers asleep fun w => some w.hushed
  rw [rest, split, List.replace_append_right first, List.replace_cons_self]
  rfl

/-- A look is a stroke, known by what it comes to. -/
theorem Books.look_eq (books : s.Books tableOf) (asleep : v ∈ s.sleepers) :
    s.look v = ((Stroke.look (s.txn v.handle).id v (s.answer v)).apply s,
      ((s.answer v).map (Completion.mk v.call)).toList) := by
  have unmarked := congrArg Engine.txns (s.updateTxn_id v.handle)
  cases aborted : (s.txn v.handle).isAborted with
  | true =>
    have edits : (((s.getUp v).updateQueue v.resource.key
        (·.clearUpgrading (s.txn v.handle).id)).updateQueue v.resource.key
          (·.remove (s.txn v.handle).id)).updateQueue v.resource.key Queue.grant =
        (s.getUp v).updateQueue v.resource.key (·.leave (s.txn v.handle).id) := by
      rw [updateQueue_updateQueue, updateQueue_updateQueue]
      rfl
    have sleepers : ((((s.getUp v).updateQueue v.resource.key
        (·.clearUpgrading (s.txn v.handle).id)).updateQueue v.resource.key
          (·.remove (s.txn v.handle).id)).grantAndNotify v.resource.key).sleepers =
        s.sleepers.filterMap
          fun w => if w.handle = v.handle then none else some (w.tell v.resource.key) := by
      rw [sleepers_grantAndNotify]
      change (s.getUp v).sleepers.map _ = _
      rw [books.sleepers_getUp asleep, List.map_filterMap]
      refine List.filterMap_congr fun w _ => ?_
      split <;> rfl
    rw [look_aborted aborted, answer, if_pos aborted]
    exact Prod.ext (Engine.ext rfl rfl (congrArg (·.queues) edits) rfl rfl rfl rfl sleepers rfl
      unmarked.symm) rfl
  | false =>
    have live : ¬ (s.txn v.handle).isAborted = true := by simp [aborted]
    cases granted : (s.queue v.resource.key).isGranted (s.txn v.handle).id with
    | true =>
      rw [look_granted aborted granted, answer, if_neg live, if_pos granted]
      have sleepers := books.sleepers_getUp asleep
      exact Prod.ext (Engine.ext rfl rfl rfl rfl rfl rfl rfl sleepers rfl rfl) rfl
    | false =>
      have there : v.resource.key ∈ s.queues := by
        obtain ⟨x, hx, isFor, -⟩ := (books.awaits v asleep).asked
        exact mem_queues_of_has (Queue.has_iff.2 ⟨x, hx, isFor.txn⟩)
      have untouched := congrArg (·.queues) (updateQueue_eq_self (f := id) there rfl)
      rw [look_waits (by simp [isReady, aborted, granted]), answer, if_neg live,
        if_neg (by simp [granted])]
      exact Prod.ext (Engine.ext rfl rfl untouched.symm rfl rfl rfl rfl
        (books.sleepers_hushed asleep) rfl unmarked.symm) rfl

theorem handle_look (id : TxnId) (v : Sleeper) (o : Option Bool) :
    (Stroke.look id v o).handle = v.handle := by
  rcases o with _ | _ | _ <;> rfl

theorem key_look (id : TxnId) (v : Sleeper) (o : Option Bool) :
    (Stroke.look id v o).key = v.resource.key := by
  rcases o with _ | _ | _ <;> rfl

/-- The call `v` withdraws from the queue in which `w` waits, and so `w` is told to look again. -/
structure Reminds (s : Engine) (v w : Sleeper) : Prop where
  withdraws : s.answer v = some false
  waits : s.answer w = none
  same : v.resource.key = w.resource.key

theorem Books.handle_ne (books : s.Books tableOf) (asleep : v ∈ s.sleepers)
    (asleep' : w ∈ s.sleepers) (other : v ≠ w) : v.handle ≠ w.handle :=
  fun same => other (List.inj_on_of_nodup_map books.calls asleep asleep' same)

theorem Books.txn_look (books : s.Books tableOf) (asleep : v ∈ s.sleepers)
    (asleep' : w ∈ s.sleepers) (other : v ≠ w) : (s.look v).1.txn w.handle = s.txn w.handle := by
  rw [books.look_eq asleep]
  refine Stroke.txn_apply_of_ne ?_
  rw [handle_look]
  exact books.handle_ne asleep asleep' other

/-- When others look, a call would return what it would have returned before, unless it could not
return at all and is reminded. -/
theorem Books.answer_look (books : s.Books tableOf) (asleep : v ∈ s.sleepers)
    (asleep' : w ∈ s.sleepers) (other : v ≠ w) (unaware : ¬ s.Reminds v w) :
    (s.look v).1.answer w = s.answer w := by
  have ids : (s.txn w.handle).id ≠ (s.txn v.handle).id :=
    books.id_ne (books.known v asleep) (books.known w asleep')
      (books.handle_ne asleep asleep' other).symm
  have queue := (Stroke.look (s.txn v.handle).id v (s.answer v)).queue_apply s w.resource.key
  rw [key_look] at queue
  unfold answer
  rw [books.txn_look asleep asleep' other, books.look_eq asleep, queue]
  by_cases aborted : (s.txn w.handle).isAborted = true
  · simp only [if_pos aborted]
  simp only [if_neg aborted]
  by_cases same : v.resource.key = w.resource.key
  · rw [if_pos same, same]
    rcases result : s.answer v with _ | _ | _
    · rfl
    · by_cases granted : (s.queue w.resource.key).isGranted (s.txn w.handle).id = true
      · have still := (books.once w.resource.key).isGranted_leave ids granted
        rw [if_pos granted]
        exact if_pos still
      · refine absurd ⟨result, ?_, same⟩ unaware
        rw [answer, if_neg aborted, if_neg granted]
    · change (if ((s.queue w.resource.key).clearUpgrading _).isGranted _ then _ else _) = _
      rw [Queue.isGranted_clearUpgrading]
  · rw [if_neg same]

/-- What becomes of a call that looks while another one does. -/
theorem sleeper_look_comm {id id' : TxnId} {o o' : Option Bool} (other : v.handle ≠ w.handle)
    (unaware : o' = some false → o = none → w.resource.key ≠ v.resource.key) :
    ((Stroke.look id v o).sleeper v).bind (Stroke.look id' w o').sleeper =
      ((Stroke.look id' w o').sleeper v).bind (Stroke.look id v o).sleeper := by
  rcases o with _ | _ | _ <;> rcases o' with _ | _ | _ <;>
    simp [Stroke.look, other, Sleeper.tell, Sleeper.hushed]
  exact (unaware rfl rfl).symm

/-- Looks change places unless one call reminds the other. -/
theorem Books.apply_look_comm (books : s.Books tableOf) (asleep : v ∈ s.sleepers)
    (asleep' : w ∈ s.sleepers) (other : v ≠ w) (unaware : ¬ s.Reminds v w)
    (unaware' : ¬ s.Reminds w v) (id id' : TxnId) :
    (Stroke.look id' w (s.answer w)).apply ((Stroke.look id v (s.answer v)).apply s) =
      (Stroke.look id v (s.answer v)).apply ((Stroke.look id' w (s.answer w)).apply s) := by
  have handles := books.handle_ne asleep asleep' other
  apply Stroke.apply_comm
  case queues =>
    intro _
    rcases s.answer v with _ | _ | _ <;> rcases s.answer w with _ | _ | _ <;> try rfl
    · exact (books.once _).leave_comm _ _
    · exact (Queue.clearUpgrading_leave ..).symm
    · exact Queue.clearUpgrading_leave ..
    · exact Queue.clearUpgrading_comm ..
  case txns =>
    rw [handle_look, handle_look]
    exact fun same => absurd same handles
  case sleepers =>
    intro u there
    by_cases mine : u.handle = v.handle
    · obtain rfl : u = v := List.inj_on_of_nodup_map books.calls there asleep mine
      exact sleeper_look_comm handles fun withdraws waits same => unaware' ⟨withdraws, waits, same⟩
    · by_cases theirs : u.handle = w.handle
      · obtain rfl : u = w := List.inj_on_of_nodup_map books.calls there asleep' theirs
        exact (sleeper_look_comm handles.symm fun withdraws waits same =>
          unaware ⟨withdraws, waits, same⟩).symm
      · rcases s.answer v with _ | _ | _ <;> rcases s.answer w with _ | _ | _ <;>
          simp [Stroke.look, mine, theirs, Sleeper.tell, Bool.or_right_comm]
  case stats =>
    intro t
    rcases s.answer v with _ | _ | _ <;> rcases s.answer w with _ | _ | _ <;> rfl

theorem Books.look (books : s.Books tableOf) (asleep : v ∈ s.sleepers)
    (told : v.notified = true) : (s.look v).1.Books tableOf :=
  (Looks.single asleep told).books books

/-- A call that looks after another one, and is not reminded by it, does what it would have done
before. -/
theorem Books.look_look (books : s.Books tableOf) (asleep : v ∈ s.sleepers)
    (asleep' : w ∈ s.sleepers) (told : v.notified = true) (told' : w.notified = true)
    (other : v ≠ w) (unaware : ¬ s.Reminds v w) :
    (s.look v).1.look w =
      ((Stroke.look (s.txn w.handle).id w (s.answer w)).apply (s.look v).1, (s.look w).2) := by
  have still := mem_look asleep asleep' told' other.symm
  rw [(books.look asleep told).look_eq still, books.answer_look asleep asleep' other unaware,
    books.txn_look asleep asleep' other, books.look_eq asleep']

theorem Books.look_comm (books : s.Books tableOf) (asleep : v ∈ s.sleepers)
    (asleep' : w ∈ s.sleepers) (told : v.notified = true) (told' : w.notified = true)
    (other : v ≠ w) (unaware : ¬ s.Reminds v w) (unaware' : ¬ s.Reminds w v) :
    ((s.look v).1.look w).1 = ((s.look w).1.look v).1 := by
  rw [books.look_look asleep asleep' told told' other unaware,
    books.look_look asleep' asleep told' told other.symm unaware', books.look_eq asleep,
    books.look_eq asleep']
  exact books.apply_look_comm asleep asleep' other unaware unaware' _ _

/-- A call that sleeps on before it is reminded might as well not have looked. -/
theorem Books.look_reminds (books : s.Books tableOf) (asleep : v ∈ s.sleepers)
    (asleep' : w ∈ s.sleepers) (told : v.notified = true) (told' : w.notified = true)
    (other : v ≠ w) (reminds : s.Reminds v w) :
    (s.look w).2 = [] ∧ (s.look w).1.look v = s.look v := by
  have unaware : ¬ s.Reminds w v := fun back => by
    have waits := back.waits
    rw [reminds.withdraws] at waits
    cases waits
  have waits : s.isReady w = false := answer_eq_none.1 reminds.waits
  have hushed := look_waits waits
  refine ⟨by rw [hushed], ?_⟩
  rw [books.look_look asleep' asleep told' told other.symm unaware, books.look_eq asleep, hushed,
    reminds.withdraws, books.sleepers_hushed asleep']
  refine Prod.ext (Engine.ext rfl rfl rfl rfl rfl rfl rfl ?_ rfl rfl) rfl
  change List.filterMap _ (List.filterMap _ _) = List.filterMap _ _
  rw [List.filterMap_filterMap]
  refine List.filterMap_congr fun u there => ?_
  by_cases theirs : u.handle = w.handle
  · obtain rfl : u = w := List.inj_on_of_nodup_map books.calls there asleep' theirs
    have handles := books.handle_ne asleep asleep' other
    simp [Stroke.look, Sleeper.hushed, Sleeper.tell, handles.symm, reminds.same, told']
  · simp [theirs]

/-- A call looks that has been told something, and what has been returned is kept. -/
def Next (tableOf : RowId → TableId) (a b : Engine × Multiset Completion) : Prop :=
  a.1.Books tableOf ∧ ∃ v ∈ a.1.sleepers, v.notified = true ∧
    b = ((a.1.look v).1, a.2 + ((a.1.look v).2 : Multiset Completion))

/-- Of two calls that might look next, either goes first. -/
theorem next_join {a b c : Engine × Multiset Completion} (one : Next tableOf a b)
    (two : Next tableOf a c) :
    ∃ d, Relation.ReflGen (Next tableOf) b d ∧ Relation.ReflTransGen (Next tableOf) c d := by
  obtain ⟨books, v, asleep, told, rfl⟩ := one
  obtain ⟨-, w, asleep', told', rfl⟩ := two
  by_cases same : v = w
  · rw [same]
    exact ⟨_, .refl, .refl⟩
  have still : w ∈ (a.1.look v).1.sleepers := mem_look asleep asleep' told' (Ne.symm same)
  have still' : v ∈ (a.1.look w).1.sleepers := mem_look asleep' asleep told same
  have second : Next tableOf ((a.1.look v).1, a.2 + ↑(a.1.look v).2)
      (((a.1.look v).1.look w).1, a.2 + ↑(a.1.look v).2 + ↑((a.1.look v).1.look w).2) :=
    ⟨books.look asleep told, w, still, told', rfl⟩
  have second' : Next tableOf ((a.1.look w).1, a.2 + ↑(a.1.look w).2)
      (((a.1.look w).1.look v).1, a.2 + ↑(a.1.look w).2 + ↑((a.1.look w).1.look v).2) :=
    ⟨books.look asleep' told', v, still', told, rfl⟩
  by_cases reminds : a.1.Reminds v w
  · obtain ⟨nothing, again⟩ := books.look_reminds asleep asleep' told told' same reminds
    rw [again, nothing, Multiset.coe_nil, add_zero] at second'
    rw [nothing, Multiset.coe_nil, add_zero]
    exact ⟨_, .refl, .single second'⟩
  · by_cases reminds' : a.1.Reminds w v
    · obtain ⟨nothing, again⟩ :=
        books.look_reminds asleep' asleep told' told (Ne.symm same) reminds'
      rw [again, nothing, Multiset.coe_nil, add_zero] at second
      rw [nothing, Multiset.coe_nil, add_zero]
      exact ⟨_, .single second, .refl⟩
    · have answers : ((a.1.look v).1.look w).2 = (a.1.look w).2 := by
        rw [books.look_look asleep asleep' told told' same reminds]
      have answers' : ((a.1.look w).1.look v).2 = (a.1.look v).2 := by
        rw [books.look_look asleep' asleep told' told (Ne.symm same) reminds']
      rw [books.look_comm asleep asleep' told told' same reminds reminds', answers,
        add_right_comm] at second
      rw [answers'] at second'
      exact ⟨_, .single second, .single second'⟩

theorem Looks.trace (looks : s.Looks cs s') (books : s.Books tableOf)
    (before : Multiset Completion) :
    Relation.ReflTransGen (Next tableOf) (s, before) (s', before + cs) := by
  induction looks generalizing before with
  | none => rw [Multiset.coe_nil, add_zero]
  | @next s s' v cs asleep told rest ih =>
    have later := ih (books.look asleep told) (before + ↑(s.look v).2)
    rw [add_assoc, Multiset.coe_add] at later
    exact .head ⟨books, v, asleep, told, rfl⟩ later

/-- In whatever order calls look, they come to the same state and return the same. -/
theorem Settles.unique (one : s.Settles cs₁ s₁) (two : s.Settles cs₂ s₂) (books : s.Books tableOf) :
    s₁ = s₂ ∧ cs₁.Perm cs₂ := by
  obtain ⟨d, later, later'⟩ := Relation.church_rosser (fun _ _ _ => next_join)
    (one.looks.trace books 0) (two.looks.trace books 0)
  have last {s' : Engine} {m : Multiset Completion} {d : Engine × Multiset Completion}
      (quiet : s'.isQuiet = true) (later : Relation.ReflTransGen (Next tableOf) (s', m) d) :
      d = (s', m) := by
    rcases Relation.ReflTransGen.cases_head later with same | ⟨e, ⟨-, v, asleep, told, -⟩, -⟩
    · exact same.symm
    · exact absurd told (not_told_of_isQuiet quiet asleep)
  have same := (last one.quiet later).symm.trans (last two.quiet later')
  rw [zero_add, zero_add] at same
  exact ⟨congrArg Prod.fst same, Multiset.coe_eq_coe.1 (congrArg Prod.snd same)⟩

/-- A call looks that has been told something, and this is where it leads. -/
def Follows (s' s : Engine) : Prop :=
  ∃ v ∈ s.sleepers, v.notified = true ∧ s' = (s.look v).1

/-- A look ends a call, or leaves one less that has been told something. -/
theorem Follows.fewer (follows : s'.Follows s) : s'.sleepers.length < s.sleepers.length ∨
    s'.sleepers.length = s.sleepers.length ∧
      s'.sleepers.countP (·.notified) < s.sleepers.countP (·.notified) := by
  obtain ⟨v, asleep, told, rfl⟩ := follows
  cases ready : s.isReady v with
  | true =>
    left
    have one := length_finishSleeper asleep
    rw [look, if_pos ready, Prod.map_fst, id]
    omega
  | false =>
    right
    obtain ⟨xs, ys, split, replaced⟩ := replace_hushed asleep
    rw [look_waits ready, replaced, split]
    simp [told, Sleeper.hushed]

theorem wellFounded_follows : WellFounded Follows := by
  let rank (s : Engine) : Nat × Nat := (s.sleepers.length, s.sleepers.countP (·.notified))
  have falls : Subrelation Follows (InvImage (Prod.Lex (· < ·) (· < ·)) rank) :=
    fun follows => Prod.lex_def.2 follows.fewer
  exact falls.wf (InvImage.wf rank (Prod.lex Nat.lt_wfRel Nat.lt_wfRel).wf)

/-- After any operation of a run it makes no difference in what order its queues and locks were
walked through, and none in what order the calls look that have been told something. They cannot go
on looking for ever. -/
theorem schedule_independent {op : Op} {w w' : Walk}
    (reach : Reachable config (fun s e => e.Fair tableOf s) s) (fair : (Event.op op).Fair tableOf s)
    (complete : w.Complete) (complete' : w'.Complete) :
    s.perform w op = s.perform w' op ∧
    (¬ ∃ f : Nat → Engine, f 0 = (s.perform w op).1 ∧ ∀ n, (f (n + 1)).Follows (f n)) ∧
    (∀ cs s', (s.perform w op).1.Looks cs s' → ∃ cs' s'', s'.Settles cs' s'') ∧
    ∀ cs₁ s₁ cs₂ s₂, (s.perform w op).1.Settles cs₁ s₁ → (s.perform w' op).1.Settles cs₂ s₂ →
      s₁ = s₂ ∧ cs₁.Perm cs₂ := by
  have same := reach.books.perform_congr reach.tidy complete complete' op
  have books : (s.perform w op).1.Books tableOf := (reach.next complete fair).books
  refine ⟨same, ?_, fun _ s' _ => ⟨_, _, s'.settles_settle⟩, fun cs₁ s₁ cs₂ s₂ one two => ?_⟩
  · rintro ⟨f, -, follows⟩
    have : IsWellFounded Engine Follows := ⟨wellFounded_follows⟩
    obtain ⟨n, ended⟩ := WellFounded.not_rel_apply_succ (r := Follows) f
    exact ended (follows n)
  · rw [← same] at two
    exact one.unique two books

/-- For instance when two of three that wait for a writer have been set to be aborted and the writer
commits: whichever looks first, the third one gets the lock. -/
theorem schedule_independent_of_two_aborted :
    let s := (fresh {}).afterAll .ascending
      [.op (.begin .repeatableRead), .op (.begin .repeatableRead), .op (.begin .repeatableRead),
        .op (.begin .repeatableRead), .op (.lock ⟨4, 0, .exclusive, .table 1⟩),
        .op (.lock ⟨5, 0, .exclusive, .table 2⟩), .op (.lock ⟨6, 1, .exclusive, .table 1⟩),
        .op (.lock ⟨7, 2, .exclusive, .table 1⟩), .op (.lock ⟨8, 3, .shared, .table 1⟩),
        .op (.setState 1 .aborted), .op (.setState 2 .aborted)]
    let s' := (s.perform .ascending (.commit 0)).1
    let one := s'.wake 8
    let two := one.1.wake 7
    let three := two.1.wake 6
    let four := three.1.wake 8
    s.perform .ascending (.commit 0) = s.perform .descending (.commit 0) ∧
      s'.settle.1 = four.1 ∧
      s'.settle.2.Perm (one.2.toList ++ (two.2.toList ++ (three.2.toList ++ four.2.toList))) ∧
      s'.settle.2 = [⟨6, false⟩, ⟨7, false⟩, ⟨8, true⟩] ∧
      (s'.wake 6).1.queue (.table 1) ≠ two.1.queue (.table 1) := by
  intro s s' one two three four
  have reach : Reachable {} (fun s e => e.Fair (fun _ => 1) s) s :=
    Reachable.afterAll Walk.complete_ascending .fresh (by decide +kernel)
  have fair : (Event.op (.commit 0)).Fair (fun _ => 1) s := ⟨trivial, trivial, trivial⟩
  obtain ⟨same, -, -, unique⟩ := schedule_independent reach fair Walk.complete_ascending
    Walk.complete_descending
  have looks : s'.Looks _ four.1 :=
    (looks_wake 8).trans ((looks_wake 7).trans ((looks_wake 6).trans (looks_wake 8)))
  have quiet : four.1.isQuiet = true := by decide +kernel
  rw [← same] at unique
  obtain ⟨last, returned⟩ := unique _ _ _ _ s'.settles_settle ⟨looks, quiet⟩
  exact ⟨same, last, returned, by decide +kernel, by decide +kernel⟩

end Engine

end TwoPhaseLocking

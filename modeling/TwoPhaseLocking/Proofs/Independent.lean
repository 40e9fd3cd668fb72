import TwoPhaseLocking.Proofs.Deeds
import TwoPhaseLocking.Proofs.Schedule

/-! # Independent operations

Deeds that are about different transactions and different queues may change places. At most the calls
asleep end up in another order, and nothing depends on that. Nor does it matter to a sleeping call
when it looks at its queue, as long as nothing is done there. So two operations on two resources may
change places, with all that follows from each of them.
-/

namespace TwoPhaseLocking.Engine

variable {tableOf : RowId → TableId} {config : Config} {s s' s'' : Engine} {h h' : Handle}
  {me you : TxnId} {k k' : QueueKey} {d e : Deed} {ds es : List Deed} {v w : Sleeper}
  {cs : List Completion}

/-- The states differ at most in the order in which calls are asleep. -/
structure Reordered (s s' : Engine) : Prop where
  sleepers : s.sleepers.Perm s'.sleepers
  rest : { s' with sleepers := s.sleepers } = s

theorem Reordered.refl (s : Engine) : s.Reordered s := ⟨.refl _, rfl⟩

theorem Reordered.of_eq (same : s = s') : s.Reordered s' := same ▸ .refl s

theorem Reordered.trans (first : s.Reordered s') (second : s'.Reordered s'') :
    s.Reordered s'' := by
  refine ⟨first.sleepers.trans second.sleepers, ?_⟩
  rw [← first.rest, ← second.rest]

theorem Reordered.doing (other : s.Reordered s') (d : Deed) :
    (s.doing d).Reordered (s'.doing d) := by
  obtain ⟨perm, rest⟩ := other
  rw [← rest]
  cases d with
  | tell k => exact ⟨perm.map _, rfl⟩
  | join v => exact ⟨perm.append_right _, rfl⟩
  | _ => exact ⟨perm, rfl⟩

theorem Reordered.doingAll (other : s.Reordered s') (ds : List Deed) :
    (s.doingAll ds).Reordered (s'.doingAll ds) := by
  induction ds generalizing s s' with
  | nil => exact other
  | cons d ds ih => exact ih (other.doing d)

theorem Reordered.apply (other : s.Reordered s') (a : Stroke) :
    (a.apply s).Reordered (a.apply s') := by
  obtain ⟨perm, rest⟩ := other
  rw [← rest]
  exact ⟨perm.filterMap _, rfl⟩

theorem Reordered.isQuiet (other : s.Reordered s') (quiet : s.isQuiet = true) :
    s'.isQuiet = true := by
  rw [Engine.isQuiet, List.all_eq_true] at quiet ⊢
  exact fun v asleep => quiet v (other.sleepers.mem_iff.2 asleep)

theorem Reordered.look (other : s.Reordered s') (books : s.Books tableOf)
    (books' : s'.Books tableOf) (asleep : v ∈ s.sleepers) :
    (s.look v).1.Reordered (s'.look v).1 ∧ (s'.look v).2 = (s.look v).2 := by
  have answers : s'.answer v = s.answer v := by
    rw [← other.rest]
    rfl
  have txns : s'.txn v.handle = s.txn v.handle := by
    rw [← other.rest]
    rfl
  rw [books.look_eq asleep, books'.look_eq (other.sleepers.mem_iff.1 asleep), answers, txns]
  exact ⟨other.apply _, rfl⟩

/-- It makes no difference to calls that look in what order they sleep. -/
theorem Looks.reordered (looks : s.Looks cs s') {t : Engine} (other : s.Reordered t)
    (books : s.Books tableOf) (books' : t.Books tableOf) :
    ∃ t', t.Looks cs t' ∧ s'.Reordered t' := by
  induction looks generalizing t with
  | none => exact ⟨t, .none t, other⟩
  | @next s s' v cs asleep told rest ih =>
    obtain ⟨next, same⟩ := other.look books books' asleep
    have asleep' := other.sleepers.mem_iff.1 asleep
    obtain ⟨t', looks', other'⟩ := ih next (books.look asleep told) (books'.look asleep' told)
    exact ⟨t', same ▸ .next asleep' told looks', other'⟩

theorem Sleeper.tell_of_ne (elsewhere : v.resource.key ≠ k) : v.tell k = v := by
  simp [Sleeper.tell, elsewhere]

/-- Deeds change places that are about different transactions and queues. -/
theorem doing_comm (here : d.At h me k) (there : e.At h' you k') (others : h ≠ h')
    (ids : me ≠ you) (keys : k ≠ k') (s : Engine) :
    ((s.doing d).doing e).Reordered ((s.doing e).doing d) := by
  cases d with
  | enroll id g =>
    cases e with
    | enroll id' g' =>
      obtain rfl : id = me := here
      obtain rfl : id' = you := there
      have maps : (s.registry.insert id g).insert id' g' =
          (s.registry.insert id' g').insert id g := by
        refine Std.ExtTreeMap.ext_getElem? fun i => ?_
        simp only [Std.ExtTreeMap.getElem?_insert, Std.compare_eq_iff_eq]
        grind
      exact .of_eq (Engine.ext rfl rfl rfl maps rfl rfl rfl rfl rfl rfl)
    | _ => exact .refl _
  | edit k₁ f =>
    cases e with
    | edit k₂ g =>
      obtain rfl : k₁ = k := here
      obtain rfl : k₂ = k' := there
      have maps : ((s.updateQueue k₁ f).updateQueue k₂ g).queues =
          ((s.updateQueue k₂ g).updateQueue k₁ f).queues := by
        refine Std.ExtTreeMap.ext_getElem? fun i => ?_
        simp only [getElem?_updateQueue, queue_updateQueue, if_neg keys, if_neg keys.symm]
        grind
      exact .of_eq (Engine.ext rfl rfl maps rfl rfl rfl rfl rfl rfl rfl)
    | _ => exact .refl _
  | amend h₁ f =>
    cases e with
    | amend h₂ g =>
      obtain rfl : h₁ = h := here
      obtain rfl : h₂ = h' := there
      have arrays : ((s.updateTxn h₁ f).updateTxn h₂ g).txns =
          ((s.updateTxn h₂ g).updateTxn h₁ f).txns := by
        refine Array.ext_getElem? fun i => ?_
        simp only [getElem?_updateTxn]
        grind
      exact .of_eq (Engine.ext rfl rfl rfl rfl rfl rfl rfl rfl rfl arrays)
    | _ => exact .refl _
  | count f =>
    cases e with
    | count g => exact .of_eq (Engine.ext rfl (there.comm here _) rfl rfl rfl rfl rfl rfl rfl rfl)
    | _ => exact .refl _
  | tell k₁ =>
    obtain rfl : k₁ = k := here
    cases e with
    | tell k₂ =>
      refine ⟨.of_eq ?_, rfl⟩
      change (s.sleepers.map _).map _ = (s.sleepers.map _).map _
      rw [List.map_map, List.map_map]
      exact List.map_congr_left fun v _ => by simp [Sleeper.tell, Bool.or_right_comm]
    | join v =>
      obtain ⟨-, on, -⟩ := there
      refine ⟨.of_eq ?_, rfl⟩
      change s.sleepers.map _ ++ [v] = (s.sleepers ++ [v]).map _
      rw [List.map_append, List.map_singleton, Sleeper.tell_of_ne (on ▸ keys.symm)]
    | _ => exact .refl _
  | join v =>
    obtain ⟨-, on, -⟩ := here
    cases e with
    | tell k₂ =>
      obtain rfl : k₂ = k' := there
      refine ⟨.of_eq ?_, rfl⟩
      change (s.sleepers ++ [v]).map _ = s.sleepers.map _ ++ [v]
      rw [List.map_append, List.map_singleton, Sleeper.tell_of_ne (on ▸ keys)]
    | join w =>
      refine ⟨?_, rfl⟩
      change ((s.sleepers ++ [v]) ++ [w]).Perm ((s.sleepers ++ [w]) ++ [v])
      rw [List.append_assoc, List.append_assoc]
      exact (List.perm_append_comm ..).append_left _
    | _ => exact .refl _

theorem doingAll_comm (here : ∀ d ∈ ds, d.At h me k) (there : ∀ e ∈ es, e.At h' you k')
    (others : h ≠ h') (ids : me ≠ you) (keys : k ≠ k') (s : Engine) :
    ((s.doingAll ds).doingAll es).Reordered ((s.doingAll es).doingAll ds) := by
  have one (s : Engine) (e : Deed) (at' : e.At h' you k') :
      ((s.doingAll ds).doing e).Reordered ((s.doing e).doingAll ds) := by
    induction ds generalizing s with
    | nil => exact .refl _
    | cons d ds ih =>
      rw [List.forall_mem_cons] at here
      exact (ih here.2 (s.doing d)).trans
        ((doing_comm here.1 at' others ids keys s).doingAll ds)
  induction es generalizing s with
  | nil => exact .refl _
  | cons e es ih =>
    rw [List.forall_mem_cons] at there
    exact ((one s e there.1).doingAll es).trans (ih there.2 (s.doing e))

/-- No call of the transaction sleeps on the queue. -/
def Absent (s : Engine) (h : Handle) (k : QueueKey) : Prop :=
  ∀ u ∈ s.sleepers, u.handle = h → u.resource.key ≠ k

theorem Absent.doing (absent : s.Absent h' k') (here : d.At h me k) (others : h' ≠ h) :
    (s.doing d).Absent h' k' := by
  intro u asleep mine
  cases d with
  | tell k =>
    obtain ⟨u', asleep', rfl⟩ := List.mem_map.1 asleep
    exact absent u' asleep' mine
  | join w =>
    obtain ⟨whose, -⟩ := here
    rcases List.mem_append.1 asleep with before | new
    · exact absent u before mine
    · rw [List.mem_singleton.1 new] at mine
      exact absurd (mine.symm.trans whose) others
  | _ => exact absent u asleep mine

/-- A look at another queue and for another transaction might as well come after the deed. -/
theorem apply_look_doing (here : d.At h me k) (others : v.handle ≠ h) (keys : v.resource.key ≠ k)
    (absent : s.Absent v.handle k) (id : TxnId) (o : Option Bool) :
    (Stroke.look id v o).apply (s.doing d) = ((Stroke.look id v o).apply s).doing d := by
  have key := key_look id v o
  have handle := handle_look id v o
  cases d with
  | enroll => rfl
  | edit k₁ f =>
    obtain rfl : k₁ = k := here
    have maps : ((s.updateQueue k₁ f).updateQueue (Stroke.look id v o).key
        (Stroke.look id v o).queue).queues =
        ((s.updateQueue (Stroke.look id v o).key
          (Stroke.look id v o).queue).updateQueue k₁ f).queues := by
      refine Std.ExtTreeMap.ext_getElem? fun i => ?_
      simp only [getElem?_updateQueue, queue_updateQueue, key, if_neg keys, if_neg keys.symm]
      grind
    exact Engine.ext rfl rfl maps rfl rfl rfl rfl rfl rfl rfl
  | amend h₁ f =>
    obtain rfl : h₁ = h := here
    have arrays : ((s.updateTxn h₁ f).updateTxn (Stroke.look id v o).handle
        (Stroke.look id v o).txn).txns =
        ((s.updateTxn (Stroke.look id v o).handle
          (Stroke.look id v o).txn).updateTxn h₁ f).txns := by
      refine Array.ext_getElem? fun i => ?_
      simp only [getElem?_updateTxn, handle]
      grind
    exact Engine.ext rfl rfl rfl rfl rfl rfl rfl rfl rfl arrays
  | tell k₁ =>
    obtain rfl : k₁ = k := here
    have list : (s.sleepers.map (·.tell k₁)).filterMap (Stroke.look id v o).sleeper =
        (s.sleepers.filterMap (Stroke.look id v o).sleeper).map (·.tell k₁) := by
      rw [List.filterMap_map, List.map_filterMap]
      refine List.filterMap_congr fun u asleep => ?_
      by_cases mine : u.handle = v.handle
      · have here : ∀ {u' : Sleeper}, u'.resource = u.resource → u'.tell k₁ = u' := fun same =>
          Sleeper.tell_of_ne (same ▸ absent u asleep mine)
        rcases o with _ | _ | _ <;> simp [Stroke.look, mine, here, Sleeper.hushed]
      · rcases o with _ | _ | _ <;>
          simp [Stroke.look, mine, Sleeper.tell, Bool.or_right_comm]
    exact Engine.ext rfl rfl rfl rfl rfl rfl rfl list rfl rfl
  | join u =>
    obtain ⟨whose, on, -⟩ := here
    have list : (s.sleepers ++ [u]).filterMap (Stroke.look id v o).sleeper =
        s.sleepers.filterMap (Stroke.look id v o).sleeper ++ [u] := by
      have kept : (Stroke.look id v o).sleeper u = some u := by
        have other : u.handle ≠ v.handle := fun same => others (same.symm.trans whose)
        have elsewhere : u.tell v.resource.key = u :=
          Sleeper.tell_of_ne fun same => keys (same.symm.trans on)
        rcases o with _ | _ | _ <;> simp [Stroke.look, other, elsewhere]
      rw [List.filterMap_append, List.filterMap_cons, kept]
      rfl
    exact Engine.ext rfl rfl rfl rfl rfl rfl rfl list rfl rfl
  | count f =>
    have stats (t : Stats) :
        (Stroke.look id v o).stats (f t) = f ((Stroke.look id v o).stats t) := by
      rcases o with _ | _ | _
      · rfl
      · exact Stats.Counts.abortedWait.comm here t
      · rfl
    exact Engine.ext rfl (stats _) rfl rfl rfl rfl rfl rfl rfl rfl

theorem apply_look_doingAll (here : ∀ d ∈ ds, d.At h me k) (others : v.handle ≠ h)
    (keys : v.resource.key ≠ k) (absent : s.Absent v.handle k) (id : TxnId) (o : Option Bool) :
    (Stroke.look id v o).apply (s.doingAll ds) = ((Stroke.look id v o).apply s).doingAll ds := by
  induction ds generalizing s with
  | nil => rfl
  | cons d ds ih =>
    rw [List.forall_mem_cons] at here
    have rest := ih here.2 (absent.doing here.1 others)
    rw [apply_look_doing here.1 others keys absent] at rest
    exact rest

theorem mem_doingAll (here : ∀ d ∈ ds, d.At h me k) (elsewhere : v.resource.key ≠ k)
    (asleep : v ∈ s.sleepers) : v ∈ (s.doingAll ds).sleepers := by
  induction ds generalizing s with
  | nil => exact asleep
  | cons d ds ih =>
    rw [List.forall_mem_cons] at here
    refine ih here.2 ?_
    cases d with
    | tell k₁ =>
      obtain rfl : k₁ = k := here.1
      exact List.mem_map.2 ⟨v, asleep, Sleeper.tell_of_ne elsewhere⟩
    | join => exact List.mem_append_left _ asleep
    | _ => exact asleep

/-- Whoever sleeps after a look slept before, and has been told something only if he had been told
before, or sleeps where the other one looked. -/
theorem Books.exists_of_mem_look (books : s.Books tableOf) (there : v ∈ s.sleepers)
    (asleep : w ∈ (s.look v).1.sleepers) : ∃ u ∈ s.sleepers, w.handle = u.handle ∧
      w.resource = u.resource ∧
        (w.notified = true → u.notified = true ∨ u.resource.key = v.resource.key) := by
  rw [books.look_eq there] at asleep
  obtain ⟨u, asleep', becomes⟩ := List.mem_filterMap.1 asleep
  refine ⟨u, asleep', ?_⟩
  generalize s.answer v = o at becomes
  rcases o with _ | _ | _ <;> by_cases mine : u.handle = v.handle <;>
    simp only [Stroke.look, mine, if_true, if_false, reduceCtorEq, Option.some.injEq] at becomes <;>
    subst becomes <;> simp +contextual [Sleeper.hushed, Sleeper.tell]

/-- A look at another queue and for another transaction makes no difference here. -/
theorem Books.sameAt_look (books : s.Books tableOf) (asleep : v ∈ s.sleepers)
    (others : v.handle ≠ h) (keys : v.resource.key ≠ k) : s.SameAt h k (s.look v).1 := by
  rw [books.look_eq asleep]
  refine ⟨?_, ?_⟩
  · refine (getElem?_updateTxn ..).trans (if_neg ?_)
    rwa [handle_look]
  · refine (getElem?_updateQueue ..).trans (if_neg ?_)
    rwa [key_look]

theorem Books.look_doingAll (books : s.Books tableOf) (books' : (s.doingAll ds).Books tableOf)
    (here : ∀ d ∈ ds, d.At h me k) (asleep : v ∈ s.sleepers) (others : v.handle ≠ h)
    (keys : v.resource.key ≠ k) :
    (s.doingAll ds).look v = ((s.look v).1.doingAll ds, (s.look v).2) := by
  have absent : s.Absent v.handle k := fun u asleep' mine =>
    List.inj_on_of_nodup_map books.calls asleep' asleep mine ▸ keys
  have same := sameAt_doingAll here others.symm keys.symm s
  have answers : (s.doingAll ds).answer v = s.answer v := by
    rw [answer, same.txn, same.queue, answer]
  rw [books.look_eq asleep, books'.look_eq (mem_doingAll here keys asleep), answers, same.txn,
    apply_look_doingAll here others keys absent]

/-- Calls that look elsewhere might as well look after the deeds. -/
theorem Looks.doingAll (looks : s.Looks cs s') (books : s.Books tableOf)
    (books' : (s.doingAll ds).Books tableOf) (here : ∀ d ∈ ds, d.At h me k)
    (idle : ¬ s.HasCall h)
    (told : ∀ u ∈ s.sleepers, u.notified = true → u.resource.key ≠ k) :
    (s.doingAll ds).Looks cs (s'.doingAll ds) ∧ s.SameAt h k s' := by
  induction looks with
  | none => exact ⟨.none _, .refl _⟩
  | @next s s' v cs asleep hears rest ih =>
    have others : v.handle ≠ h := fun mine => idle ⟨v, asleep, mine⟩
    have keys := told v asleep hears
    have looked := books.look_doingAll books' here asleep others keys
    have asleep' := mem_doingAll here keys asleep
    have books'' := books'.look asleep' hears
    rw [looked] at books''
    obtain ⟨rest', same⟩ := ih (books.look asleep hears) books'' (fun ⟨u, still, mine⟩ => by
      obtain ⟨u', before, whose, -⟩ := books.exists_of_mem_look asleep still
      exact idle ⟨u', before, whose.symm.trans mine⟩) (fun u still hears' => by
      obtain ⟨u', before, -, on, hears''⟩ := books.exists_of_mem_look asleep still
      rw [on]
      rcases hears'' hears' with hears'' | where'
      · exact told u' before hears''
      · rwa [where'])
    have first : (s.doingAll ds).Looks (((s.doingAll ds).look v).2 ++ cs) (s'.doingAll ds) :=
      .next asleep' hears (by rw [looked]; exact rest')
    rw [looked] at first
    exact ⟨first, (books.sameAt_look asleep others keys).trans same⟩

theorem hasCall_doingAll (here : ∀ d ∈ ds, d.At h me k) (others : h' ≠ h)
    (there : (s.doingAll ds).HasCall h') : s.HasCall h' := by
  induction ds generalizing s with
  | nil => exact there
  | cons d ds ih =>
    rw [List.forall_mem_cons] at here
    obtain ⟨u, asleep, mine⟩ := ih here.2 there
    cases d with
    | tell k =>
      obtain ⟨u', asleep', rfl⟩ := List.mem_map.1 asleep
      exact ⟨u', asleep', mine⟩
    | join w =>
      obtain ⟨whose, -⟩ := here.1
      rcases List.mem_append.1 asleep with before | new
      · exact ⟨u, before, mine⟩
      · rw [List.mem_singleton.1 new] at mine
        exact absurd (mine.symm.trans whose) others
    | _ => exact ⟨u, asleep, mine⟩

/-- Only those are told something who sleep where something is done. -/
theorem told_doingAll (here : ∀ d ∈ ds, d.At h me k)
    (before : ∀ u ∈ s.sleepers, u.notified = true → u.resource.key = k) :
    ∀ u ∈ (s.doingAll ds).sleepers, u.notified = true → u.resource.key = k := by
  induction ds generalizing s with
  | nil => exact before
  | cons d ds ih =>
    rw [List.forall_mem_cons] at here
    refine ih here.2 fun u asleep hears => ?_
    cases d with
    | tell k₁ =>
      obtain rfl : k₁ = k := here.1
      obtain ⟨u', asleep', rfl⟩ := List.mem_map.1 asleep
      by_cases on : u'.resource.key = k₁
      · exact on
      · rw [Sleeper.tell_of_ne on] at hears ⊢
        exact before u' asleep' hears
    | join w =>
      obtain ⟨-, on, -⟩ := here.1
      rcases List.mem_append.1 asleep with asleep | new
      · exact before u asleep hears
      · rwa [List.mem_singleton.1 new]
    | _ => exact before u asleep hears

theorem fair_of_site? {op : Op} {r : Resource} (about : op.site? = some (h, r))
    (known : r.Known tableOf) (idle : ¬ s.HasCall h) : (Event.op op).Fair tableOf s := by
  cases op with
  | lock =>
    cases about
    exact ⟨trivial, idle, known⟩
  | unlock =>
    cases about
    exact ⟨trivial, trivial, known⟩
  | _ => cases about

section Both

variable {a b : Op} {ra rb : Reply} {r r' : Resource} {s₁ s₂ s₁' s₂' : Engine}
  {cs₁ cs₂ cs₁' cs₂' : List Completion} {w₁ w₂ w₁' w₂' : Walk}

/-- When an operation is carried out after another one, which is about another transaction and
another resource, and after the calls that have been told something by that one have looked, it is as
if they all looked in the end. -/
theorem Foretells.both (one : s.Foretells tableOf h r.key a ds ra)
    (two : s.Foretells tableOf h' r'.key b es rb) (books : s.Books tableOf) (rolls : s.Rolls)
    (quiet : s.isQuiet = true) (about : a.site? = some (h, r)) (about' : b.site? = some (h', r'))
    (others : h ≠ h') (keys : r.key ≠ r'.key) (known : r.Known tableOf) (known' : r'.Known tableOf)
    (idle : ¬ s.HasCall h) (idle' : ¬ s.HasCall h')
    (first : (s.perform w₁ a).1.Settles cs₁ s₁) (second : (s₁.perform w₂ b).1.Settles cs₂ s₂) :
    (s.perform w₁ a).2 = ra ∧ (s₁.perform w₂ b).2 = rb ∧
      ((s.doingAll ds).doingAll es).Settles (cs₁ ++ cs₂) s₂ ∧
      ((s.doingAll ds).doingAll es).Books tableOf := by
  have performs := one.runs s w₁ (.refl s) books rolls
  have after : (s.after w₁ (.op a)) = s.doingAll ds := congrArg Prod.fst performs
  have books' : (s.doingAll ds).Books tableOf :=
    after ▸ books.after (fair_of_site? about known idle) w₁
  have rolls' : (s.doingAll ds).Rolls := after ▸ rolls.path (s.after_path w₁ (.op a))
  have still : ¬ (s.doingAll ds).HasCall h' :=
    mt (hasCall_doingAll one.here others.symm) idle'
  have same := sameAt_doingAll one.here others keys s
  have performs' := two.runs _ w₂ same books' rolls'
  have books'' : ((s.doingAll ds).doingAll es).Books tableOf := by
    have next := books'.after (fair_of_site? about' known' still) w₂
    rwa [Engine.after, performs'] at next
  have told : ∀ u ∈ (s.doingAll ds).sleepers, u.notified = true → u.resource.key = r.key :=
    told_doingAll one.here fun u asleep hears => absurd hears (not_told_of_isQuiet quiet asleep)
  rw [performs] at first ⊢
  obtain ⟨looks, same'⟩ := first.looks.doingAll books' books'' two.here still
    fun u asleep hears => (told u asleep hears).symm ▸ keys
  have rolls'' : s₁.Rolls := rolls'.path first.looks.winding
  have performs'' := two.runs s₁ w₂ (same.trans same') (first.looks.books books') rolls''
  rw [performs''] at second ⊢
  exact ⟨rfl, rfl, ⟨looks.trans second.looks, second.quiet⟩, books''⟩

/-- In every state that clients can lead to, once all calls have looked that have been told
something, two operations change places that lock or unlock two resources for two transactions, of
which neither has a call asleep. Both reply what they reply in the other order, the same calls return
in the end with the same results, and the states are the same but for the order in which calls are
asleep, whatever order calls look in. -/
theorem independent_operations_commute
    (reach : Reachable config (fun s e => e.Fair tableOf s) s) (quiet : s.isQuiet = true)
    (about : a.site? = some (h, r)) (about' : b.site? = some (h', r')) (others : h ≠ h')
    (elsewhere : r ≠ r') (known : r.Known tableOf) (known' : r'.Known tableOf)
    (idle : ¬ s.HasCall h) (idle' : ¬ s.HasCall h')
    (first : (s.perform w₁ a).1.Settles cs₁ s₁) (second : (s₁.perform w₂ b).1.Settles cs₂ s₂)
    (first' : (s.perform w₁' b).1.Settles cs₁' s₁')
    (second' : (s₁'.perform w₂' a).1.Settles cs₂' s₂') :
    (s.perform w₁ a).2 = (s₁'.perform w₂' a).2 ∧ (s₁.perform w₂ b).2 = (s.perform w₁' b).2 ∧
      (cs₁ ++ cs₂).Perm (cs₁' ++ cs₂') ∧ s₂.Reordered s₂' := by
  have keys : r.key ≠ r'.key := mt (known.eq known') elsewhere
  have books := reach.books
  obtain ⟨ds, ra, one⟩ := exists_foretells tableOf about s
  obtain ⟨es, rb, two⟩ := exists_foretells tableOf about' s
  obtain ⟨replyA, replyB, settles, books₁⟩ := one.both two books reach.rolls quiet about about'
    others keys known known' idle idle' first second
  obtain ⟨replyB', replyA', settles', books₂⟩ := two.both one books reach.rolls quiet about' about
    others.symm keys.symm known' known idle' idle first' second'
  have comm : ((s.doingAll ds).doingAll es).Reordered ((s.doingAll es).doingAll ds) := by
    rcases one.known with rfl | lt
    · exact .refl _
    · rcases two.known with rfl | lt'
      · exact .refl _
      · exact doingAll_comm one.here two.here others (books.id_ne lt' lt others) keys s
  obtain ⟨t, looks, reordered⟩ := settles.looks.reordered comm books₁ books₂
  obtain ⟨rfl, perm⟩ :=
    Settles.unique ⟨looks, reordered.isQuiet settles.quiet⟩ settles' books₂
  exact ⟨replyA.trans replyA'.symm, replyB.trans replyB'.symm, perm, reordered⟩

/-- For instance when one unlocks a table for which a third waits, and the other has to wait for a
fourth one on another table. -/
theorem independent_operations_commute_of_two :
    let s := (fresh {}).afterAll .ascending
      [.op (.begin .repeatableRead), .op (.begin .repeatableRead), .op (.begin .repeatableRead),
        .op (.begin .repeatableRead), .op (.lock ⟨4, 0, .exclusive, .table 1⟩),
        .op (.lock ⟨5, 3, .exclusive, .table 2⟩), .op (.lock ⟨6, 2, .shared, .table 1⟩)]
    let a := Op.unlock 0 (.table 1) false
    let b := Op.lock ⟨7, 1, .shared, .table 2⟩
    let one := (s.perform .ascending a).1.settle
    let both := (one.1.perform .ascending b).1.settle
    let other := (s.perform .ascending b).1.settle
    let both' := (other.1.perform .ascending a).1.settle
    Reachable {} (fun s e => e.Fair (fun _ => 1) s) s ∧ s.isQuiet = true ∧
      ¬ s.HasCall 0 ∧ ¬ s.HasCall 1 ∧
      (other.1.perform .ascending a).2 = .unlocked ∧ (one.1.perform .ascending b).2 = .asleep ∧
      one.2 ++ both.2 = [⟨6, true⟩] ∧ (one.2 ++ both.2).Perm (other.2 ++ both'.2) ∧
      both.1.Reordered both'.1 := by
  intro s a b one both other both'
  have reach : Reachable {} (fun s e => e.Fair (fun _ => 1) s) s :=
    Reachable.afterAll Walk.complete_ascending .fresh (by decide +kernel)
  have quiet : s.isQuiet = true := by decide +kernel
  have idle : ¬ s.HasCall 0 := by decide +kernel
  have idle' : ¬ s.HasCall 1 := by decide +kernel
  obtain ⟨-, -, perm, reordered⟩ :=
    independent_operations_commute (a := a) (b := b) reach quiet rfl rfl (by decide) (by decide)
      trivial trivial idle idle' (settles_settle _) (settles_settle _) (settles_settle _)
      (settles_settle _)
  exact ⟨reach, quiet, idle, idle', by decide +kernel, by decide +kernel, by decide +kernel, perm,
    reordered⟩

end Both

end TwoPhaseLocking.Engine

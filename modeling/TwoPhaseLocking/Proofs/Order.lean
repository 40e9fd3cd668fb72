import TwoPhaseLocking.Proofs.Consistency
import TwoPhaseLocking.Proofs.Frame

/-! # First come, first served

Whatever is done to a queue, those who stay in it keep their order. Requests go by the numbers of
their calls here, for transactions may share identifiers and may have several requests in a queue.
A new request joins at the end, and as the granted stand in front, nobody behind a request that
waits is granted before it.
-/

namespace TwoPhaseLocking

/-- The number of the lock call that an event makes. -/
def Event.number? : Event → Option Nat
  | .op (.lock c) => some c.number
  | _ => none

/-- In a list without repetitions, those who are left keep their order. -/
theorem pair_sublist_iff {l l' : List Nat} (left : l'.Sublist l) (nodup : l.Nodup) {n m : Nat}
    (hn : n ∈ l') (hm : m ∈ l') : [n, m].Sublist l ↔ [n, m].Sublist l' := by
  refine ⟨fun before => ?_, fun before => before.trans left⟩
  have kept : l.filter (· ∈ l') = l' := by
    clear before hn hm
    induction left with
    | slnil => rfl
    | @cons l' l a left ih =>
      obtain ⟨absent, nodup⟩ := List.nodup_cons.1 nodup
      have gone : a ∉ l' := fun there => absent (left.subset there)
      simp [gone, ih nodup]
    | @cons_cons l' l a left ih =>
      obtain ⟨absent, nodup⟩ := List.nodup_cons.1 nodup
      have same : l.filter (· ∈ a :: l') = l.filter (· ∈ l') := by
        refine List.filter_congr fun b hb => ?_
        have other : b ≠ a := by
          rintro rfl
          exact absent hb
        simp [other]
      rw [List.filter_cons_of_pos (by simp), same, ih nodup]
  have both := before.filter (· ∈ l')
  rwa [kept, List.filter_cons_of_pos (by simpa using hn), List.filter_cons_of_pos (by simpa using hm),
    List.filter_nil] at both

namespace Queue

variable {q q' q'' : Queue} {new : Option Nat} {n m : Nat} {x y : Request}

/-- Whose requests stand in the queue, by the numbers of their calls. -/
def numbers (q : Queue) : List Nat := q.requests.map (·.call)

/-- The requests of the queue, but for those of the call that is `new`. -/
def others (q : Queue) (new : Option Nat) : List Request :=
  q.requests.filter fun x => some x.call ≠ new

/-- Apart from the call that is `new`, the second queue is what is left of the first, in its
order, with some more granted. -/
def Follows (new : Option Nat) (q q' : Queue) : Prop :=
  (q'.others new).SublistForall₂ (fun y x => x.GrownTo y) (q.others new)

theorem mem_numbers : n ∈ q.numbers ↔ ∃ x ∈ q.requests, x.call = n := by
  simp [numbers]

theorem mem_others : x ∈ q.others new ↔ x ∈ q.requests ∧ some x.call ≠ new := by
  simp [others]

@[simp]
theorem others_none (q : Queue) : q.others none = q.requests := by
  simp [others]

theorem numbers_grown {rs rs' : List Request} (grown : List.Forall₂ Request.GrownTo rs rs') :
    rs'.map (·.call) = rs.map (·.call) := by
  induction grown with
  | nil => rfl
  | cons first _ ih => simp [first.same.2.2.2, ih]

instance : Std.Refl fun y x : Request => x.GrownTo y := ⟨.refl⟩

instance : IsTrans Request fun y x => x.GrownTo y := ⟨fun _ _ _ later earlier => earlier.trans later⟩

theorem Follows.of_sublist (left : (q'.others new).Sublist (q.others new)) : q.Follows new q' :=
  left.sublistForall₂

theorem Follows.refl (q : Queue) : q.Follows new q := .of_sublist (.refl _)

theorem Follows.trans (first : q.Follows new q') (second : q'.Follows new q'') :
    q.Follows new q'' :=
  IsTrans.trans (r := List.SublistForall₂ fun y x : Request => x.GrownTo y) _ _ _ second first

theorem Change.follows {joins : Request → Prop} (change : Change joins q q')
    (own : ∀ r, joins r → some r.call = new) : q.Follows new q' := by
  cases change with
  | @push r new' =>
    apply Follows.of_sublist
    simp [others, own r new']
  | @insertUpgrade r new' =>
    apply Follows.of_sublist
    rw [others, Queue.insertUpgrade, List.filter_append, List.filter_cons_of_neg (by simp [own r new']),
      ← List.filter_append, List.takeWhile_append_dropWhile, others]
  | remove => exact .of_sublist (List.eraseP_sublist.filter _)
  | clearUpgrading => exact .of_sublist (by simp [others])
  | grant =>
    refine List.sublistForall₂_iff.2 ⟨q.others new, ?_, .refl _⟩
    refine List.rel_filter (fun y x grown => ?_) q.grant_grown.flip
    have same : y.call = x.call := grown.same.2.2.2
    simp [same]

theorem Changes.follows {joins : Request → Prop} (changes : Changes joins q q')
    (own : ∀ r, joins r → some r.call = new) : q.Follows new q' := by
  induction changes with
  | refl => exact .refl q
  | tail _ change ih => exact ih.trans (change.follows own)

/-- Everybody left was there before. -/
theorem Follows.exists_mem (follows : q.Follows new q') (hy : y ∈ q'.requests)
    (other : some y.call ≠ new) : ∃ x ∈ q.requests, x.GrownTo y := by
  obtain ⟨xs, grown, left⟩ := List.sublistForall₂_iff.1 follows
  obtain ⟨x, hx, grown⟩ := exists_of_mem_grown grown.flip y (mem_others.2 ⟨hy, other⟩)
  exact ⟨x, (mem_others.1 (left.subset hx)).1, grown⟩

theorem Follows.numbers (follows : q.Follows new q') :
    ((q'.others new).map (·.call)).Sublist ((q.others new).map (·.call)) := by
  obtain ⟨xs, grown, left⟩ := List.sublistForall₂_iff.1 follows
  rw [numbers_grown grown.flip]
  exact left.map _

/-- Two who are not new stand in the queue as they stand among the others. -/
theorem pair_sublist_others (hn : some n ≠ new) (hm : some m ≠ new) :
    [n, m].Sublist ((q.others new).map (·.call)) ↔ [n, m].Sublist q.numbers := by
  have others : (q.others new).map (·.call) = q.numbers.filter (some · ≠ new) := by
    rw [Queue.numbers, List.filter_map]
    rfl
  rw [others]
  refine ⟨fun before => before.trans List.filter_sublist, fun before => ?_⟩
  have both := before.filter (some · ≠ new)
  rwa [List.filter_cons_of_pos (by simpa using hn), List.filter_cons_of_pos (by simpa using hm),
    List.filter_nil] at both

theorem mem_map_others (hn : n ∈ q.numbers) (other : some n ≠ new) :
    n ∈ (q.others new).map (·.call) := by
  obtain ⟨x, hx, rfl⟩ := mem_numbers.1 hn
  exact List.mem_map_of_mem (mem_others.2 ⟨hx, other⟩)

/-- Those who stay in a queue keep their order. -/
theorem Follows.pair_sublist (follows : q.Follows new q') (nodup : q.numbers.Nodup)
    (hn : n ∈ q'.numbers) (hm : m ∈ q'.numbers) (old : some n ≠ new) (old' : some m ≠ new) :
    [n, m].Sublist q.numbers ↔ [n, m].Sublist q'.numbers := by
  rw [← pair_sublist_others old old', ← pair_sublist_others old old']
  exact pair_sublist_iff follows.numbers (nodup.sublist (List.filter_sublist.map _))
    (mem_map_others hn old) (mem_map_others hm old')

/-- Where the granted stand in front and nobody stands twice, whoever stands before a granted one
is granted. -/
theorem granted_of_before (front : q.requests.Pairwise fun a b => b.granted = true → a.granted = true)
    (nodup : ((q.others new).map (·.call)).Nodup) (hx : x ∈ q.requests) (hy : y ∈ q.requests)
    (old : some x.call ≠ new) (old' : some y.call ≠ new) (before : [x.call, y.call].Sublist q.numbers)
    (granted : y.granted = true) : x.granted = true := by
  rw [← pair_sublist_others old old'] at before
  obtain ⟨both, left, eq⟩ := List.sublist_map_iff.1 before
  obtain ⟨x', rest, rfl, samex, eq'⟩ := List.map_eq_cons_iff.1 eq.symm
  obtain ⟨y', none, rfl, samey, nil⟩ := List.map_eq_cons_iff.1 eq'
  obtain rfl := List.map_eq_nil_iff.1 nil
  obtain rfl := List.inj_on_of_nodup_map nodup (left.subset (by simp)) (mem_others.2 ⟨hx, old⟩) samex
  obtain rfl := List.inj_on_of_nodup_map nodup (left.subset (by simp)) (mem_others.2 ⟨hy, old'⟩) samey
  have ordered := front.sublist (left.trans List.filter_sublist)
  exact List.rel_of_pairwise_cons ordered (List.mem_singleton_self _) granted

/-- The queue when a call has joined it that holds `held` on the resource: at the end, or in place
of the lock. -/
def joined (q : Queue) (c : LockCall) (id : TxnId) : Option Mode → Queue
  | none => q.push (c.request id)
  | some _ => (q.remove id).insertUpgrade (c.request id)

@[simp]
theorem numbers_grant (q : Queue) : q.grant.numbers = q.numbers :=
  numbers_grown q.grant_grown

theorem nodup_joined {c : LockCall} {id : TxnId} (held : Option Mode) (nodup : q.numbers.Nodup)
    (fresh : c.number ∉ q.numbers) : (q.joined c id held).numbers.Nodup := by
  cases held with
  | none =>
    rw [joined, numbers, requests_push, List.map_append]
    exact nodup.append (List.nodup_singleton _) (List.disjoint_singleton.2 fresh)
  | some old =>
    have left : (q.remove id).numbers.Sublist q.numbers := List.eraseP_sublist.map _
    rw [joined, numbers, ((requests_insertUpgrade_perm _ _).map _).nodup_iff, List.map_cons]
    exact List.nodup_cons.2 ⟨fun there => fresh (left.subset there), nodup.sublist left⟩

end Queue

namespace Engine

variable {config : Config} {may : Engine → Event → Prop} {I P : Engine → Prop}
  {s s' s'' s₀ : Engine} {a : Move} {e : Event} {w : Walk} {c : LockCall} {k : QueueKey}
  {new : Option Nat} {n m : Nat}

theorem Does.follows (does : s.Does a s') (own : ∀ c, a.call? = some c → some c.number = new)
    (k : QueueKey) : (s.queue k).Follows new (s'.queue k) := by
  refine (does.changes k).follows fun r joins => ?_
  obtain ⟨c, call, rfl⟩ := joins
  exact own c call

/-- As far as an event has come, all but the call it makes have kept their order. -/
theorem follows_of_path (path : Path (e.Causes s) s s') (k : QueueKey) :
    (s.queue k).Follows e.number? (s'.queue k) := by
  refine path.keeps (P := fun s' => (s.queue k).Follows e.number? (s'.queue k)) ?_ (.refl _)
  intro s₁ a s₂ follows does causes
  refine follows.trans (does.follows (fun c call => ?_) k)
  rw [lock_of_causes causes call]
  rfl

theorem requests_await {held : Option Mode} (live : (s.txn c.handle).isAborted = false) :
    ((s.await c held).1.queue k).requests = ((s.grantAndNotify c.resource.key).queue k).requests := by
  cases granted : ((s.queue c.resource.key).grant).isGranted (s.txn c.handle).id with
  | false =>
    rw [await_waits live granted]
    rfl
  | true =>
    rw [await_granted live granted, queue_updateTxn, queue_updateQueue]
    split
    · rename_i same
      rw [Queue.requests_clearUpgrading, same]
      rfl
    · rfl

/-- The queue of the resource after a request has joined it and been looked at. -/
theorem requests_joined (held : Option Mode) (f : Queue → Queue) (edited : ∀ k, s'.queue k =
      if c.resource.key = k then f (s.queue c.resource.key) else s.queue k)
    (joined : ∀ q, f q = q.joined c (s.txn c.handle).id held) (k : QueueKey) :
    ((s'.grantAndNotify c.resource.key).queue k).requests = (s.queue k).requests ∨
      c.resource.key = k ∧ ((s'.grantAndNotify c.resource.key).queue k).requests =
        ((s.queue k).joined c (s.txn c.handle).id held).grant.requests := by
  rw [queue_grantAndNotify, edited, edited, ← joined]
  split
  · rename_i same
    rw [if_pos rfl, same]
    exact .inr ⟨rfl, rfl⟩
  · exact .inl rfl

theorem requests_enqueue (live : (s.txn c.handle).isAborted = false) (held : Option Mode)
    (k : QueueKey) :
    ((enqueue (fun _ s => s) s c held).1.queue k).requests = (s.queue k).requests ∨
      c.resource.key = k ∧ ((enqueue (fun _ s => s) s c held).1.queue k).requests =
        ((s.queue k).joined c (s.txn c.handle).id held).grant.requests := by
  cases held with
  | none =>
    have joined := requests_joined (s := s.tally Stats.lockRequest) none _
      (fun k => queue_pushRequest _ k c) (fun _ => rfl) k
    rw [enqueue_new, requests_await (by exact live)]
    exact joined
  | some old =>
    cases free : (s.queue c.resource.key).upgrading with
    | some other =>
      rw [enqueue_conflict (by simp [free])]
      exact .inl rfl
    | none =>
      cases there : (s.queue c.resource.key).has (s.txn c.handle).id with
      | false =>
        rw [enqueue_missing free there]
        exact .inl rfl
      | true =>
        have joined := requests_joined (s := s.tally Stats.lockRequest) (some old) _
          (fun k => queue_swapRequest _ k c old) (fun _ => rfl) k
        have live' : ((s.swapRequest c old).txn c.handle).isAborted = false :=
          (isAborted_updateTxn_forget ..).trans live
        rw [enqueue_swap free there, requests_await (by exact live')]
        exact joined

/-- A lock call joins the queue of its resource, and the queue is looked through. Or it leaves all
queues as they are. -/
theorem requests_lock (w : Walk) (s : Engine) (c : LockCall) (k : QueueKey) :
    ((s.after w (.op (.lock c))).queue k).requests = (s.queue k).requests ∨
      c.resource.key = k ∧ ((s.after w (.op (.lock c))).queue k).requests = ((s.queue k).joined c
        (s.txn c.handle).id ((s.txn c.handle).locks.mode? c.resource)).grant.requests := by
  rw [after, perform]
  split
  · rw [carryOut, Prod.map_fst, id, lock_eq]
    split
    · exact .inl rfl
    · rename_i active
      split
      · exact .inl (by simp)
      · split
        · exact .inl (by simp [refuse])
        · have live := isAborted_of_active (Bool.eq_false_iff.2 active)
          simpa using requests_enqueue (s := (s.register c.handle).updateQueue c.resource.key id)
            ((congrArg _ (txn_register ..)).trans live)
            ((s.txn c.handle).locks.mode? c.resource) k
  · exact .inl rfl

/-- A request of the call with this number stands in the queue. -/
def Stands (s : Engine) (k : QueueKey) (n : Nat) : Prop := n ∈ (s.queue k).numbers

instance : Decidable (s.Stands k n) := inferInstanceAs (Decidable (n ∈ (s.queue k).numbers))

/-- The request of the first call stands before one of the second. -/
def Before (s : Engine) (k : QueueKey) (n m : Nat) : Prop := [n, m].Sublist (s.queue k).numbers

/-- From one state to another by allowed events, with `I` true before and after each. -/
inductive Throughout (may : Engine → Event → Prop) (I : Engine → Prop) (s : Engine) :
    Engine → Prop where
  | start : I s → Throughout may I s s
  | next {s' : Engine} {w : Walk} {e : Event} :
      Throughout may I s s' → w.Complete → may s' e → I (s'.after w e) →
        Throughout may I s (s'.after w e)

/-- In this state, in which an event may be under way, `I` is true, as it has been since `s`. -/
def EverSince (may : Engine → Event → Prop) (I : Engine → Prop) (s s'' : Engine) : Prop :=
  ∃ s' e, Throughout may I s s' ∧ may s' e ∧ Path (e.Causes s') s' s'' ∧ I s''

theorem Throughout.holds (since : Throughout may I s s') : I s' := by
  cases since with
  | start holds => exact holds
  | next _ _ _ holds => exact holds

theorem Throughout.begins (since : Throughout may I s s') : I s := by
  induction since with
  | start holds => exact holds
  | next _ _ _ _ ih => exact ih

theorem Throughout.reachable (since : Throughout may I s s') (reach : Reachable config may s) :
    Reachable config may s' := by
  induction since with
  | start => exact reach
  | next _ complete allowed _ ih => exact .next ih complete allowed

theorem Throughout.afterAll (complete : w.Complete) (since : Throughout may I s s')
    {es : List Event} (allowed : Allows w (fun s e => may s e ∧ I (s.after w e)) s' es) :
    Throughout may I s (s'.afterAll w es) := by
  induction es generalizing s' with
  | nil => exact since
  | cons e es ih => exact ih (.next since complete allowed.1.1 allowed.1.2) allowed.2

/-- Between two events none is under way. -/
theorem Throughout.everSince (since : Throughout may I s s') (allowed : may s' e) :
    EverSince may I s s' :=
  ⟨s', e, since, allowed, .refl _, since.holds⟩

/-- What every event keeps, as far as it has come, as long as `I` is true. -/
theorem EverSince.keeps (since : EverSince may I s s'') (reach : Reachable config may s)
    (start : P s) (keep : ∀ s₀ e s', Reachable config may s₀ → may s₀ e → Path (e.Causes s₀) s₀ s' →
      I s₀ → I s' → P s₀ → P s') : P s'' := by
  obtain ⟨s', e, since, allowed, path, holds⟩ := since
  refine keep s' e s'' (since.reachable reach) allowed path since.holds holds ?_
  clear path holds allowed
  induction since with
  | start => exact start
  | @next s₁ w e₁ since _ allowed₁ holds₁ ih =>
    exact keep s₁ e₁ _ (since.reachable reach) allowed₁ (after_path w e₁) since.holds holds₁ ih

theorem number_ne (fresh : e.FreshNumber s) (there : s.Stands k n) : some n ≠ e.number? := by
  obtain ⟨x, hx, rfl⟩ := Queue.mem_numbers.1 there
  cases e with
  | wake => exact Option.some_ne_none _
  | op o =>
    cases o with
    | lock c => exact fun same => fresh.2 k x hx (Option.some.inj same)
    | _ => exact Option.some_ne_none _

/-- No call has two requests in a queue. -/
theorem Reachable.nodup_numbers (reach : Reachable config (fun s e => e.FreshNumber s) s)
    (k : QueueKey) : (s.queue k).numbers.Nodup := by
  refine reach.invariant (P := fun s => (s.queue k).numbers.Nodup)
    (by simp [Engine.fresh, queue, Queue.numbers]) ?_
  intro s w e nodup fresh
  have plain (none : e.number? = none) : ((s.after w e).queue k).numbers.Nodup := by
    have follows := follows_of_path (after_path (s := s) w e) k
    rw [none] at follows
    have left := follows.numbers
    rw [Queue.others_none, Queue.others_none] at left
    exact nodup.sublist left
  cases e with
  | wake => exact plain rfl
  | op o =>
    cases o with
    | lock c =>
      have absent : c.number ∉ (s.queue k).numbers := fun there =>
        number_ne (k := k) fresh there rfl
      rw [Queue.numbers]
      rcases requests_lock w s c k with same | ⟨-, joined⟩
      · rw [same]
        exact nodup
      · rw [joined, ← Queue.numbers, Queue.numbers_grant]
        exact Queue.nodup_joined _ nodup absent
    | _ => exact plain rfl

/-- A new request stands behind all others. -/
theorem before_lock (fresh : (Event.op (.lock c)).FreshNumber s) (there : s.Stands c.resource.key n)
    (new : (s.txn c.handle).locks.mode? c.resource = none)
    (stands : (s.after w (.op (.lock c))).Stands c.resource.key c.number) :
    (s.after w (.op (.lock c))).Before c.resource.key n c.number := by
  have absent : ¬ s.Stands c.resource.key c.number := fun there => number_ne fresh there rfl
  rw [Stands, Queue.numbers] at stands
  rw [Before, Queue.numbers]
  rcases requests_lock w s c c.resource.key with same | ⟨-, joined⟩
  · rw [same] at stands
    exact absurd stands absent
  · rw [joined, new, ← Queue.numbers, Queue.numbers_grant, Queue.joined, Queue.numbers,
      Queue.requests_push, List.map_append]
    exact (List.singleton_sublist.2 there).append (.refl _)

/-- As far as an event has come, whoever still stands in a queue stands in the order of before. -/
theorem before_iff_of_path (nodup : (s₀.queue k).numbers.Nodup) (fresh : e.FreshNumber s₀)
    (path : Path (e.Causes s₀) s₀ s) (before : s₀.Stands k n ∧ s₀.Stands k m)
    (after : s.Stands k n ∧ s.Stands k m) : s₀.Before k n m ↔ s.Before k n m :=
  (follows_of_path path k).pair_sublist nodup after.1 after.2 (number_ne fresh before.1)
    (number_ne fresh before.2)

/-- Two that stay in a queue keep their order. -/
theorem EverSince.before_iff (since : EverSince (fun s e => e.FreshNumber s)
      (fun s => s.Stands k n ∧ s.Stands k m) s s')
    (reach : Reachable config (fun s e => e.FreshNumber s) s) :
    s.Before k n m ↔ s'.Before k n m := by
  refine since.keeps (P := fun s' => s.Before k n m ↔ s'.Before k n m) reach .rfl ?_
  intro s₀ e s₁ reach fresh path before after same
  exact same.trans (before_iff_of_path (reach.nodup_numbers k) fresh path before after)

/-- A request once granted stays so. -/
theorem EverSince.granted (since : EverSince (fun s e => e.FreshNumber s) (·.Stands k n) s s')
    (reach : Reachable config (fun s e => e.FreshNumber s) s)
    (granted : ∀ x ∈ (s.queue k).requests, x.call = n → x.granted = true) :
    ∀ x ∈ (s'.queue k).requests, x.call = n → x.granted = true := by
  refine since.keeps (P := fun s' => ∀ x ∈ (s'.queue k).requests, x.call = n →
    x.granted = true) reach granted ?_
  intro s₀ e s₁ _ fresh path before _ granted x hx own
  have old : some x.call ≠ e.number? := own ▸ number_ne fresh before
  obtain ⟨x₀, hx₀, grown⟩ := (follows_of_path path k).exists_mem hx old
  exact grown.2 (granted x₀ hx₀ (grown.same.2.2.2.symm.trans own))

/-- Whoever stands before a granted request is granted. -/
theorem EverSince.front (since : EverSince (fun s e => e.FreshNumber s)
      (fun s => s.Stands k n ∧ s.Stands k m) s s')
    (reach : Reachable config (fun s e => e.FreshNumber s) s) (before : s.Before k n m)
    {x y : Request} (hx : x ∈ (s'.queue k).requests) (hy : y ∈ (s'.queue k).requests)
    (own : x.call = n) (own' : y.call = m) (granted : y.granted = true) : x.granted = true := by
  rw [since.before_iff reach] at before
  obtain ⟨s₁, e, since, fresh, path, -⟩ := since
  have reach₁ := since.reachable reach
  have tidy : s'.Tidy := reach₁.tidy.path path
  have nodup : (((s₁.queue k).others e.number?).map (·.call)).Nodup :=
    (reach₁.nodup_numbers k).sublist (List.filter_sublist.map _)
  refine Queue.granted_of_before (tidy k).front (nodup.sublist (follows_of_path path k).numbers)
    hx hy ?_ ?_ (by rwa [own, own']) granted
  · rw [own]
    exact number_ne fresh since.holds.1
  · rw [own']
    exact number_ne fresh since.holds.2

/-- In every run in which no two calls go by the same number at a time, the numbers tell the
requests of a queue apart, and two that stay in a queue keep their order. A request once granted
stays so. And as long as a request stands in a queue, none is granted that has joined it since,
unless the first is granted itself, but for those that take the place of a lock. -/
theorem first_come_first_served (reach : Reachable config (fun s e => e.FreshNumber s) s)
    (k : QueueKey) :
    (s.queue k).numbers.Nodup ∧
    (∀ n m s', EverSince (fun s e => e.FreshNumber s) (fun s => s.Stands k n ∧ s.Stands k m) s s' →
      (s.Before k n m ↔ s'.Before k n m)) ∧
    (∀ n s', EverSince (fun s e => e.FreshNumber s) (·.Stands k n) s s' →
      ∀ x ∈ (s.queue k).requests, x.call = n → x.granted = true →
        ∀ x' ∈ (s'.queue k).requests, x'.call = n → x'.granted = true) ∧
    ∀ c w, w.Complete → (Event.op (.lock c)).FreshNumber s → c.resource.key = k →
      (s.txn c.handle).locks.mode? c.resource = none → ∀ n, s.Stands k n →
      ∀ s', EverSince (fun s e => e.FreshNumber s) (fun s => s.Stands k n ∧ s.Stands k c.number)
          (s.after w (.op (.lock c))) s' →
        ∀ x ∈ (s'.queue k).requests, ∀ y ∈ (s'.queue k).requests,
          x.call = n → y.call = c.number → y.granted = true → x.granted = true := by
  refine ⟨reach.nodup_numbers k, fun n m s' since => since.before_iff reach, ?_, ?_⟩
  · intro n s' since x hx own granted
    refine since.granted reach fun x' hx' own' => ?_
    have same := List.inj_on_of_nodup_map (reach.nodup_numbers k) hx hx' (own.trans own'.symm)
    rwa [← same]
  · rintro c w complete fresh rfl new n there s' since x hx y hy own own' granted
    have stands : (s.after w (.op (.lock c))).Stands c.resource.key c.number := by
      obtain ⟨s₁, e, since, -⟩ := since
      exact since.begins.2
    exact since.front (reach.next complete fresh) (before_lock fresh there new stands) hx hy own own'
      granted

/-- For instance a reader who comes when a writer waits for another reader: as long as the writer
waits he is not granted his lock, which would go with the one that is held. -/
theorem first_come_first_served_behind_writer :
    let s := (fresh {}).afterAll .ascending
      [.op (.begin .repeatableRead), .op (.begin .repeatableRead), .op (.begin .repeatableRead),
        .op (.lock ⟨3, 0, .shared, .table 1⟩), .op (.lock ⟨4, 1, .exclusive, .table 1⟩)]
    let c : LockCall := ⟨5, 2, .shared, .table 1⟩
    let s₁ := s.after .ascending (.op (.lock c))
    let s' := s₁.afterAll .ascending [.wake 4, .op .detect]
    (s'.queue (.table 1)).requests.map (fun x => (x.call, x.granted)) =
        [(3, true), (4, false), (5, false)] ∧
      (s.Before (.table 1) 3 4 ↔ s'.Before (.table 1) 3 4) ∧
      (∀ x ∈ (s'.queue (.table 1)).requests, x.call = 3 → x.granted = true) ∧
      ∀ x ∈ (s'.queue (.table 1)).requests, ∀ y ∈ (s'.queue (.table 1)).requests,
        x.call = 4 → y.call = 5 → y.granted = true → x.granted = true := by
  intro s c s₁ s'
  have reach : Reachable {} (fun s e => e.FreshNumber s) s :=
    Reachable.afterAll Walk.complete_ascending .fresh (by decide +kernel)
  have complete := Walk.complete_ascending
  have fresh : (Event.op (.lock c)).FreshNumber s := by decide +kernel
  have since {I : Engine → Prop} {s : Engine} (since : Throughout (fun s e => e.FreshNumber s) I s s₁)
      (allowed : Allows .ascending (fun s e => e.FreshNumber s ∧ I (s.after .ascending e)) s₁
        [.wake 4, .op .detect]) : EverSince (fun s e => e.FreshNumber s) I s s' :=
    (since.afterAll complete allowed).everSince (e := .op .detect) trivial
  obtain ⟨-, order, granted, served⟩ := first_come_first_served reach (.table 1)
  refine ⟨by decide +kernel, order 3 4 s' (since ?_ (by decide +kernel)), ?_, ?_⟩
  · exact .next (.start (by decide +kernel)) complete fresh (by decide +kernel)
  · obtain ⟨x, hx, own, first⟩ : ∃ x ∈ (s.queue (.table 1)).requests,
        x.call = 3 ∧ x.granted = true := by decide +kernel
    refine granted 3 s' (since ?_ (by decide +kernel)) x hx own first
    exact .next (.start (by decide +kernel)) complete fresh (by decide +kernel)
  · exact served c .ascending complete fresh rfl (by decide +kernel) 4 (by decide +kernel) s'
      (since (.start (by decide +kernel)) (by decide +kernel))

end Engine

end TwoPhaseLocking

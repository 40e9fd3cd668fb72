import TwoPhaseLocking.Proofs.Asleep
import TwoPhaseLocking.Proofs.Deadlock

/-! # No wake-up is lost

A sleeping call learns of a grant or an abort only if somebody looks through its queue. Every
grant is part of such a look, and whoever aborts a transaction sees to it that its queues are
looked through, but for a client who sets its state. A detection pass makes up for that too: it
wakes all calls of aborted transactions, and finds them because they are registered. Others may
abort the transaction of a call at any gap of it. The call sees that before it sleeps: from its last
look on it holds on to its queue.
-/

namespace TwoPhaseLocking

/-- The operation wakes the calls of the transactions it aborts. -/
def Op.rouses : Op → Bool
  | abort _ | abortAndWake _ | detect => true
  | _ => false

/-- A walk comes by every queue in which somebody stands. -/
theorem Walk.Complete.mem_queues {w : Walk} (complete : w.Complete) {s : Engine} {k : QueueKey}
    {id : TxnId} (has : (s.queue k).has id = true) : k ∈ w.queues s := by
  rw [(complete.queues s).mem_iff, Std.ExtTreeMap.mem_keys]
  exact Engine.mem_queues_of_has has

namespace Engine

variable {tableOf : RowId → TableId} {config : Config} {s s' s₀ : Engine} {m : Move}
  {h : Handle} {k k' : QueueKey} {id : TxnId} {w : Walk} {silent silent' : Handle → Prop}
  {past : List (Engine × Event)}

/-- While its call slept the transaction was set to be aborted, and the call has slept on. -/
def Stranded (h : Handle) : List (Engine × Event) → Prop
  | [] => False
  | (s, e) :: past => s.HasCall h ∧
      ((s.txn h).isAborted = false ∧ e = .op (.setState h .aborted) ∨ Stranded h past)

/-- No call sleeps whose transaction is aborted. -/
def Awake (s : Engine) : Prop := ∀ v ∈ s.sleepers, (s.txn v.handle).isAborted = false

@[simp]
theorem has_grantAndNotify : ((s.grantAndNotify k).queue k').has id = (s.queue k').has id := by
  have mem {q : Queue} : q.has id = true ↔ id ∈ q.requests.map (·.txn) := by
    rw [Queue.has_iff, List.mem_map]
  rw [queue_grantAndNotify]
  split
  · rename_i same
    rw [← same, Bool.eq_iff_iff, mem, mem, Queue.txns_grant]
  · rfl

theorem has_wakeIn (ks : List QueueKey) (id' : TxnId) :
    ((s.wakeIn ks id').queue k).has id = (s.queue k).has id := by
  induction ks generalizing s with
  | nil => rfl
  | cons k' ks ih =>
    rw [wakeIn, List.foldl_cons]
    refine Eq.trans ih ?_
    split <;> simp

/-- The calls are told that sleep on those of the queues in which the transaction stands. -/
theorem sleepers_wakeIn (ks : List QueueKey) : (s.wakeIn ks id).sleepers = s.sleepers.map fun v =>
    if v.resource.key ∈ ks ∧ (s.queue v.resource.key).has id = true then { v with notified := true }
    else v := by
  induction ks generalizing s with
  | nil => simp [wakeIn]
  | cons k ks ih =>
    rw [wakeIn, List.foldl_cons]
    refine Eq.trans ih ?_
    split
    · rename_i there
      simp only [has_grantAndNotify]
      rw [grantAndNotify, List.map_map]
      refine List.map_congr_left fun v _ => ?_
      by_cases here : v.resource.key = k
      · simp [here, there]
      · simp [here]
    · rename_i absent
      refine List.map_congr_left fun v _ => ?_
      by_cases here : v.resource.key = k
      · simp [here, absent]
      · simp [here]

/-- The calls are told that sleep on a queue in which one of the transactions stands. -/
theorem sleepers_wakeEach (complete : w.Complete) (ids : List TxnId) :
    (ids.foldl (wakePending w) s).sleepers = s.sleepers.map fun v =>
      if ids.any fun id => (s.queue v.resource.key).has id then { v with notified := true }
      else v := by
  induction ids generalizing s with
  | nil => simp
  | cons id ids ih =>
    rw [List.foldl_cons, ih]
    simp only [wakePending, has_wakeIn, sleepers_wakeIn, List.map_map]
    refine List.map_congr_left fun v _ => ?_
    cases there : (s.queue v.resource.key).has id with
    | true => simp [there, complete.mem_queues there]
    | false => simp [there]

theorem txns_wakeEach (ids : List TxnId) : (ids.foldl (wakePending w) s).txns = s.txns := by
  induction ids generalizing s with
  | nil => rfl
  | cons id ids ih => rw [List.foldl_cons, ih, wakePending, txns_wakeIn]

@[simp]
theorem txn_wakeEach (ids : List TxnId) : (ids.foldl (wakePending w) s).txn h = s.txn h := by
  rw [txn, txns_wakeEach, txn]

/-- Calls of aborted transactions have been told, but for the `silent` ones, and a detection pass
finds those. -/
structure Alert (silent : Handle → Prop) (s : Engine) : Prop where
  told : ∀ v ∈ s.sleepers, (s.txn v.handle).isAborted = true → v.notified = true ∨ silent v.handle
  listed : ∀ v ∈ s.sleepers, s.registry[(s.txn v.handle).id]? = some v.handle ∨
    (s.txn v.handle).isAborted = true ∧ v.notified = true

/-- What this relies on: whoever is aborted without being told is one of the `silent`, an abort
is not taken back while a call sleeps, and nobody is struck off who has one asleep. -/
def KeepsAlert (silent : Handle → Prop) (s : Engine) : Move → Prop
  | .mark h (.abort _) => s.HasCall h → (s.txn h).isAborted = true ∨ silent h
  | .mark h (.setState state) => s.HasCall h →
      state = .aborted ∧ ((s.txn h).isAborted = true ∨ silent h)
  | .unregister _ => False
  | .retire id => ∀ v ∈ s.sleepers, (s.txn v.handle).id = id →
      (s.txn v.handle).isAborted = true ∧ v.notified = true
  | _ => True

theorem alert_fresh (config : Config) : (fresh config).Alert silent := by
  constructor <;> simp [fresh]

/-- A call has been told unless it has looked, and then its transaction was not aborted. -/
theorem SleepsOn.notified {v v' : Sleeper} (sleepsOn : s.SleepsOn v s' v')
    (aborted : (s.txn v.handle).isAborted = true) (told : v.notified = true) :
    v'.notified = true := by
  refine (sleepsOn.told told).resolve_right fun waits => ?_
  rw [isReady, aborted, Bool.or_true] at waits
  cases waits

/-- The transaction of a call that is admitted is registered. -/
theorem Admits.listed {c : LockCall} {held : Option Mode} (admitted : s.Admits c held)
    (books : s.Books tableOf) (enrolled : s.Enrolled) :
    s.registry[(s.txn c.handle).id]? = some c.handle := by
  obtain ⟨h, found⟩ := Option.isSome_iff_exists.1 admitted.registered
  have there := (Option.filter_eq_some_iff.1 found).1
  obtain ⟨lt, own⟩ := enrolled.registry _ h there
  rw [there, books.ids h c.handle lt admitted.known own]

theorem Does.listed (does : s.Does m s') (books : s.Books tableOf)
    (lt : h < s.txns.size) (there : s.registry[(s.txn h).id]? = some h) :
    s'.registry[(s'.txn h).id]? = some h ∨ m = .unregister (s.txn h).id ∨
      m = .retire (s.txn h).id := by
  rw [does.id_eq lt]
  rcases does.registry_keeps there with still | struck | retired | ⟨h', lt', own, still⟩
  · exact .inl still
  · exact .inr (.inl struck)
  · exact .inr (.inr retired)
  · rw [books.ids h' h lt' lt own] at still
    exact .inl still

theorem Alert.move (alert : s.Alert silent) (books : s.Books tableOf) (enrolled : s.Enrolled)
    (does : s.Does m s') (fair : s.Fair tableOf m) (keeps : s.KeepsAlert silent m) :
    s'.Alert silent := by
  have still {v : Sleeper} (asleep : v ∈ s.sleepers) (aborted : (s.txn v.handle).isAborted = true) :
      (s'.txn v.handle).isAborted = true := by
    rcases does.isAborted aborted with still | ⟨state, rfl, revived⟩
    · exact still
    · exact absurd (keeps ⟨v, asleep, rfl⟩).1 revived
  constructor
  case told =>
    intro v' there aborted
    rcases does.sleeper books fair there with ⟨v, asleep, sleepsOn⟩ | call
    · have handle : v'.handle = v.handle := (Sleeper.eq_of_hushed sleepsOn.same).2.1
      rw [handle] at aborted ⊢
      have told (before : (s.txn v.handle).isAborted = true) :
          v'.notified = true ∨ silent v.handle :=
        (alert.told v asleep before).imp_left (sleepsOn.notified before)
      rcases does.mark_of_aborted (books.known v asleep) aborted with before | ⟨_, rfl⟩ | rfl
      · exact told before
      · exact (keeps ⟨v, asleep, rfl⟩).elim told .inr
      · exact (keeps ⟨v, asleep, rfl⟩).2.elim told .inr
    · obtain ⟨c, held, admitted, handle⟩ := does.admits_of_sleeper call
      have live := isAborted_of_active admitted.active
      rw [← handle] at aborted
      rcases does.mark_of_aborted admitted.known aborted with before | ⟨_, rfl⟩ | rfl
      · rw [before] at live
        cases live
      · cases call
      · cases call
  case listed =>
    intro v' there
    rcases does.sleeper books fair there with ⟨v, asleep, sleepsOn⟩ | call
    · have handle : v'.handle = v.handle := (Sleeper.eq_of_hushed sleepsOn.same).2.1
      rw [handle]
      have told (before : (s.txn v.handle).isAborted = true ∧ v.notified = true) :
          (s'.txn v.handle).isAborted = true ∧ v'.notified = true :=
        ⟨still asleep before.1, sleepsOn.notified before.1 before.2⟩
      rcases alert.listed v asleep with listed | before
      · rcases does.listed books (books.known v asleep) listed with listed | rfl | rfl
        · exact .inl listed
        · exact keeps.elim
        · exact .inr (told (keeps v asleep rfl))
      · exact .inr (told before)
    · obtain ⟨c, held, admitted, handle⟩ := does.admits_of_sleeper call
      rw [← handle]
      have listed := admitted.listed books enrolled
      rcases does.listed books admitted.known listed with listed | rfl | rfl
      · exact .inl listed
      · cases call
      · cases call

/-- Nobody who has a call asleep goes unheard for other reasons than being among the `silent`. -/
structure Watchful (tableOf : RowId → TableId) (silent : Handle → Prop) (s : Engine) : Prop where
  books : s.Books tableOf
  enrolled : s.Enrolled
  alert : s.Alert silent
  numbered : s.Numbered

/-- What that relies on. -/
structure Heeds (tableOf : RowId → TableId) (silent : Handle → Prop) (s : Engine) (m : Move) :
    Prop where
  fair : s.Fair tableOf m
  calm : s.Calm m
  keeps : s.KeepsAlert silent m

theorem Watchful.move (watchful : s.Watchful tableOf silent) (does : s.Does m s')
    (heeds : s.Heeds tableOf silent m) : s'.Watchful tableOf silent where
  books := watchful.books.move does heeds.fair
  enrolled := watchful.enrolled.move watchful.books does heeds.calm
  alert := watchful.alert.move watchful.books watchful.enrolled does heeds.fair heeds.keeps
  numbered := watchful.numbered.move watchful.books does heeds.fair

theorem Watchful.path (watchful : s.Watchful tableOf silent)
    (path : Path (fun s m => s.Heeds tableOf silent m) s s') : s'.Watchful tableOf silent :=
  path.keeps (fun _ _ _ => Watchful.move) watchful

theorem Watchful.mono (watchful : s.Watchful tableOf silent)
    (le : ∀ h, s.HasCall h → silent h → silent' h) : s.Watchful tableOf silent' :=
  { watchful with
    alert := {
      watchful.alert with
      told := fun v asleep aborted => (watchful.alert.told v asleep aborted).imp_right
        (le v.handle ⟨v, asleep, rfl⟩) } }

/-- An abort of somebody who may go unheard. -/
theorem heeds_abort {reason : Option AbortReason}
    (unheard : s.HasCall h → (s.txn h).isAborted = true ∨ silent h) :
    s.Heeds tableOf silent (.mark h (.abort reason)) :=
  ⟨trivial, trivial, unheard⟩

/-- Somebody is not heard only if he is `silent`, when everybody else is woken who may have been
aborted unheard. -/
theorem Watchful.wakeEach (watchful : s.Watchful tableOf silent') (complete : w.Complete)
    (ids : List TxnId) (le : ∀ v ∈ s.sleepers, (s.txn v.handle).isAborted = true →
      v.notified = false → silent v.handle ∨ (s.txn v.handle).id ∈ ids) :
    (ids.foldl (wakePending w) s).Watchful tableOf silent := by
  have woken : (ids.foldl (wakePending w) s).Watchful tableOf silent' :=
    watchful.path (wakeEach_path (fun _ _ => ⟨trivial, trivial, trivial⟩) w ids)
  refine ⟨woken.books, woken.enrolled, ⟨fun v' there aborted => ?_, woken.alert.listed⟩,
    woken.numbered⟩
  rw [sleepers_wakeEach complete] at there
  obtain ⟨v, asleep, rfl⟩ := List.mem_map.1 there
  rw [txn_wakeEach] at aborted
  split
  · exact .inl rfl
  · rename_i passed
    rw [if_neg passed] at aborted
    cases told : v.notified with
    | true => exact .inl rfl
    | false =>
      refine .inr ((le v asleep aborted told).resolve_right fun called => passed ?_)
      obtain ⟨x, hx, isFor, -⟩ := (watchful.books.awaits v asleep).asked
      exact List.any_eq_true.2 ⟨_, called, Queue.has_iff.2 ⟨x, hx, isFor.txn⟩⟩

theorem Watchful.abortAndWake (watchful : s.Watchful tableOf silent) (complete : w.Complete) :
    (s.abortAndWake w h).Watchful tableOf fun h' => silent h' ∧ h' ≠ h := by
  have marked : (s.updateTxn h (·.abort none)).Watchful tableOf fun h' => silent h' ∨ h' = h :=
    (watchful.mono fun _ _ => .inl).move (.mark (m := .abort none))
      (heeds_abort fun _ => .inr (.inr rfl))
  refine marked.wakeEach complete [(s.txn h).id] fun v asleep aborted told => ?_
  by_cases mine : v.handle = h
  · right
    rw [mine, proj_updateTxn s h (·.abort none) (·.id) (·.id_abort none)]
    exact List.mem_singleton_self _
  · left
    rw [txn_updateTxn_of_ne mine] at aborted
    refine ⟨(watchful.alert.told v asleep aborted).resolve_left ?_, mine⟩
    rw [told]
    exact Bool.false_ne_true

theorem Watchful.abort (watchful : s.Watchful tableOf silent) (complete : w.Complete)
    (known : h < s.txns.size) : (s.abort w h).1.Watchful tableOf silent := by
  rw [Engine.abort]
  split
  · exact watchful
  · rename_i unfinished
    have woken := watchful.abortAndWake (h := h) complete
    have txn : (s.abortAndWake w h).txn h = (s.txn h).abort none := txn_abortAndWake known
    -- while the locks are given back the transaction stays aborted, and its calls told
    have given : Path (fun s m => s.Heeds tableOf (fun h' => silent h' ∧ h' ≠ h) m) _ _ ∧ _ :=
      releaseEach_path (h := h)
        (I := fun s' => (s'.txn h).isAborted = true ∧ (s'.txn h).id = (s.txn h).id)
        (fun s' reason held => heeds_abort fun _ => .inl held.1)
        (fun _ _ _ _ => ⟨trivial, trivial, trivial⟩) (fun _ => ⟨trivial, trivial, trivial⟩)
        (fun s' r held => txn_unlock_forced
          (p := fun t => t.isAborted = true ∧ t.id = (s.txn h).id) held
          (fun t reason hp => ⟨isAborted_abort_of_isAborted hp.1 _, by simp [hp.2]⟩)
          (fun _ _ _ hp => hp))
        (w.locks (s.abortAndWake w h) h)
        ⟨by rw [txn]; exact isAborted_abort unfinished none, by rw [txn]; simp⟩
    obtain ⟨path, aborted, id⟩ := given
    have released := woken.path path
    rw [releaseAll]
    split
    · rename_i s' e eq
      rw [eq] at released
      exact released.mono fun _ _ => And.left
    · rename_i s' eq
      rw [eq] at released aborted id
      refine (released.move .retire ⟨trivial, trivial, fun v asleep own => ?_⟩).mono
        fun _ _ => And.left
      have mine : v.handle = h := released.books.ids _ _ (released.books.known v asleep)
        (lt_size_of_isAborted aborted) (own.trans id.symm)
      rw [← mine] at aborted
      exact ⟨aborted, (released.alert.told v asleep aborted).resolve_right fun both => both.2 mine⟩

theorem mem_strandedIn {ks : List QueueKey} : id ∈ s.strandedIn ks ↔
    (∃ k ∈ ks, ∃ x ∈ (s.queue k).requests, x.granted = false ∧ x.txn = id) ∧
      s.isDoomed id = true := by
  simp [strandedIn, Queue.waiting, and_assoc]

theorem sleepers_sacrifice (all : Bool) (vs : List TxnId) :
    (s.sacrifice all vs).1.sleepers = s.sleepers := by
  induction vs generalizing s with
  | nil => rfl
  | cons v vs ih =>
    rw [sacrifice]
    split
    · exact ih
    · rename_i s₁ able
      obtain ⟨h, -, -, rfl⟩ := exists_of_abortVictim able
      split
      · exact ih
      · rfl

theorem isAborted_of_withVictim {h' : Handle}
    (aborted : ((s.withVictim h').txn h).isAborted = true) :
    (s.txn h).isAborted = true ∨ h = h' := by
  by_cases mine : h = h'
  · exact .inr mine
  · left
    rwa [withVictim, txn_tally, txn_updateTxn_of_ne mine] at aborted

/-- Whoever is aborted after a sacrifice was so before, or is one of the victims. -/
theorem mem_sacrifice {all : Bool} {vs : List TxnId}
    (named : ∀ v h, s.lookup v = some h → (s.txn h).id = v)
    (aborted : ((s.sacrifice all vs).1.txn h).isAborted = true) :
    (s.txn h).isAborted = true ∨ (s.txn h).id ∈ (s.sacrifice all vs).2 := by
  induction vs generalizing s with
  | nil => exact .inl aborted
  | cons v vs ih =>
    rw [sacrifice] at aborted ⊢
    split at aborted
    · exact ih named aborted
    · rename_i s₁ able
      obtain ⟨h', found, -, rfl⟩ := exists_of_abortVictim able
      have ids := (winds_withVictim (s := s) h').ids
      split at aborted
      · rename_i whole
        have named' (u : TxnId) (h : Handle) (found : (s.withVictim h').lookup u = some h) :
            ((s.withVictim h').txn h).id = u := by
          rw [ids]
          exact named u h ((sacrificed_withVictim (s := s) h').lookup u ▸ found)
        rw [if_pos whole]
        rcases ih named' aborted with before | victim
        · refine (isAborted_of_withVictim before).imp_right fun mine => ?_
          rw [mine, named v h' found]
          exact List.mem_cons_self
        · rw [ids] at victim
          exact .inr (List.mem_cons_of_mem v victim)
      · rename_i first
        rw [if_neg first]
        refine (isAborted_of_withVictim aborted).imp_right fun mine => ?_
        rw [mine, named v h' found]
        exact List.mem_cons_self

/-- A pass finds whoever sleeps without having been told anything. -/
theorem Watchful.lookup {v : Sleeper} (watchful : s.Watchful tableOf silent)
    (asleep : v ∈ s.sleepers) (untold : v.notified = false) :
    s.lookup (s.txn v.handle).id = some v.handle := by
  have listed := (watchful.alert.listed v asleep).resolve_right fun both => by
    rw [untold] at both
    cases both.2
  exact Option.filter_eq_some_iff.2 ⟨listed,
    isReferred_iff.2 (.inr (.inr (hasCall_iff.1 ⟨v, asleep, rfl⟩)))⟩

/-- Waking the victims, and those who were aborted before, leaves nobody unheard. -/
theorem Watchful.sacrifice (watchful : s.Watchful tableOf silent) (complete : w.Complete)
    (all : Bool) (vs : List TxnId) :
    ((s.strandedIn (w.queues s) ++ (s.sacrifice all vs).2).foldl (wakePending w)
      { (s.sacrifice all vs).1 with graph := ∅ }).Watchful tableOf fun _ => False := by
  have sacrificed : (s.sacrifice all vs).1.Watchful tableOf fun _ => True :=
    (watchful.mono fun _ _ _ => trivial).path
      (sacrifice_path (fun _ _ _ => heeds_abort fun _ => .inr trivial)
        (fun _ => ⟨trivial, trivial, trivial⟩) all vs)
  have emptied : Watchful tableOf (fun _ => True) { (s.sacrifice all vs).1 with graph := ∅ } :=
    sacrificed.move (.side ⟨rfl, rfl, fun _ => rfl, rfl, rfl, rfl, rfl⟩) ⟨trivial, trivial, trivial⟩
  refine emptied.wakeEach complete _ fun v there aborted told => .inr ?_
  have asleep : v ∈ s.sleepers := by
    rw [← sleepers_sacrifice all vs]
    exact there
  have winds : s.Winds (s.sacrifice all vs).1 :=
    winds_of_path (sacrifice_path (fun _ _ _ => trivial) (fun _ => trivial) all vs)
  have named (u : TxnId) (h : Handle) (found : s.lookup u = some h) : (s.txn h).id = u :=
    (watchful.enrolled.registry u h (Option.filter_eq_some_iff.1 found).1).2
  change ((s.sacrifice all vs).1.txn v.handle).id ∈ _
  rw [winds.ids, List.mem_append]
  rcases mem_sacrifice named aborted with before | victim
  · -- the scan finds by its request whoever was aborted before the pass
    left
    obtain ⟨x, hx, isFor, waits⟩ := watchful.books.waits asleep told
    have visited := complete.mem_queues (Queue.has_iff.2 ⟨x, hx, isFor.txn⟩)
    have doomed : s.isDoomed (s.txn v.handle).id = true := by
      simp [isDoomed, watchful.lookup asleep told, before]
    exact mem_strandedIn.2 ⟨⟨_, visited, x, hx, waits, isFor.txn⟩, doomed⟩
  · exact .inr victim

/-- A pass leaves nobody unheard. -/
theorem Watchful.detect (watchful : s.Watchful tableOf silent) (complete : w.Complete) :
    (s.detect w).1.Watchful tableOf fun _ => False :=
  (watchful.move (.side (.tally Stats.detectionPass)) ⟨trivial, trivial, trivial⟩).sacrifice
    complete s.config.resolveAll _

/-- What clients are held to who let nothing happen to a transaction with a call asleep but an
abort, and strike nobody off: by an event that does not wake those it aborts, nobody comes to be
unheard but by having his state set. -/
theorem heeds_of_causes {e : Event} (books : s.Books tableOf) (fair : e.Fair tableOf s₀)
    (only : e.OnlyAborted s₀) (register : e.KeepsRegister)
    (set : ∀ h, e = .op (.setState h .aborted) → s₀.HasCall h →
      (s₀.txn h).isAborted = true ∨ silent h)
    (plain : ∀ o, e = .op o → o.rouses = false)
    (known : ∀ o, e = .op o → ∀ h ∈ o.handle?, h < s.txns.size) (causes : e.Causes s₀ s m) :
    s.Heeds tableOf silent m := by
  refine ⟨fair_of_causes fair causes, calm_of_causes only causes, ?_⟩
  cases m with
  | mark h k =>
    cases k with
    | abort reason =>
      rcases causes with rfl | ⟨callers, o, rfl, mine⟩
      · cases plain _ rfl
      · intro asleep
        rw [hasCall_iff, callers, ← hasCall_iff] at asleep
        have rouses := plain o rfl
        cases o with
        | lock | unlock | releaseAll | commit => cases only h mine asleep
        | abort | abortAndWake => cases rouses
        | _ => cases mine
    | setState state =>
      obtain ⟨rfl, rfl⟩ := causes
      intro asleep
      obtain rfl := beq_iff_eq.1 (only h rfl asleep)
      exact ⟨rfl, set h rfl asleep⟩
    | _ => trivial
  | unregister id =>
    obtain ⟨-, rfl⟩ := causes
    exact register
  | retire id =>
    obtain ⟨callers, h, own, rfl | ⟨rfl, -⟩⟩ := causes
    · intro v asleep same
      obtain rfl := books.ids _ h (books.known v asleep) (known _ rfl h rfl) (same.trans own.symm)
      have before : s₀.HasCall v.handle := by
        rw [hasCall_iff, ← callers, ← hasCall_iff]
        exact ⟨v, asleep, rfl⟩
      cases only _ rfl before
    · cases plain _ rfl
  | _ => trivial

theorem Watchful.path_plain {e : Event} (watchful : s.Watchful tableOf silent)
    (fair : e.Fair tableOf s) (only : e.OnlyAborted s) (register : e.KeepsRegister)
    (set : ∀ h, e = .op (.setState h .aborted) → s.HasCall h →
      (s.txn h).isAborted = true ∨ silent h)
    (plain : ∀ o, e = .op o → o.rouses = false)
    (known : ∀ o, e = .op o → ∀ h ∈ o.handle?, h < s.txns.size) (path : Path (e.Causes s) s s') :
    s'.Watchful tableOf silent := by
  refine (path.keeps (P := fun s' => s.txns.size ≤ s'.txns.size ∧
    s'.Watchful tableOf silent) ?_ ⟨Nat.le_refl _, watchful⟩).2
  rintro s₁ m s₂ ⟨le, watchful⟩ does causes
  have heeds := heeds_of_causes watchful.books fair only register set plain
    (fun o mine h there => Nat.lt_of_lt_of_le (known o mine h there) le) causes
  exact ⟨Nat.le_trans le does.size_le, watchful.move does heeds⟩

theorem Watchful.after_plain {e : Event} (watchful : s.Watchful tableOf silent)
    (fair : e.Fair tableOf s) (only : e.OnlyAborted s) (register : e.KeepsRegister)
    (set : ∀ h, e = .op (.setState h .aborted) → s.HasCall h →
      (s.txn h).isAborted = true ∨ silent h)
    (plain : ∀ o, e = .op o → o.rouses = false)
    (known : ∀ o, e = .op o → ∀ h ∈ o.handle?, h < s.txns.size) :
    (s.after w e).Watchful tableOf silent :=
  watchful.path_plain fair only register set plain known (after_path w e)

theorem Watchful.commit (watchful : s.Watchful tableOf silent) (known : h < s.txns.size)
    (noCall : ¬ s.HasCall h) : (s.commit w h).1.Watchful tableOf silent := by
  refine watchful.path_plain (e := .op (.commit h)) ⟨trivial, trivial, trivial⟩ ?_ trivial
    (fun _ wrong => nomatch wrong) ?_ ?_ (commit_path w)
  · rintro _ ⟨⟩ asleep
    exact absurd asleep noCall
  · rintro _ ⟨⟩
    rfl
  · rintro _ ⟨⟩ _ ⟨⟩
    exact known

theorem Watchful.wake (watchful : s.Watchful tableOf silent) (n : Nat) :
    (s.wake n).1.Watchful tableOf silent :=
  watchful.after_plain (w := .ascending) (e := .wake n) ⟨trivial, trivial, trivial⟩ trivial trivial
    (fun _ wrong => nomatch wrong) (fun _ wrong => nomatch wrong) fun _ wrong => nomatch wrong

theorem Watchful.after {e : Event} (watchful : s.Watchful tableOf (Stranded · past))
    (complete : w.Complete) (fair : e.Fair tableOf s) (only : e.OnlyAborted s)
    (register : e.KeepsRegister) :
    (s.after w e).Watchful tableOf (Stranded · ((s, e) :: past)) := by
  have start : s.Watchful tableOf (Stranded · ((s, e) :: past)) :=
    watchful.mono fun h asleep before => ⟨asleep, .inr before⟩
  cases e with
  | wake n => exact start.wake n
  | op o =>
    cases usable : o.handle?.all s.isUsable with
    | false =>
      have nothing : s.after w (.op o) = s := by simp [Engine.after, perform, usable]
      rw [nothing]
      exact start
    | true =>
      have known (h : Handle) (there : h ∈ o.handle?) : h < s.txns.size :=
        lt_size_of_isUsable (by simpa [Option.mem_def.1 there] using usable)
      have done : s.after w (.op o) = (s.carryOut w o).1 := by
        rw [Engine.after, perform, if_pos usable]
      cases o with
      | abort h =>
        rw [done]
        exact start.abort complete (known h rfl)
      | abortAndWake h =>
        rw [done]
        exact (start.abortAndWake complete).mono fun _ _ => And.left
      | detect =>
        rw [done]
        exact (start.detect complete).mono fun _ _ => False.elim
      | _ =>
        refine start.after_plain fair only register (fun h set asleep => ?_)
          (fun o' mine => ?_) fun o' mine => ?_
        · cases dead : (s.txn h).isAborted with
          | true => exact .inl rfl
          | false => exact .inr ⟨asleep, .inl ⟨dead, set⟩⟩
        · cases mine
          rfl
        · cases mine
          exact known

theorem Run.watchful (run : Run config
    (fun s e => e.Fair tableOf s ∧ e.OnlyAborted s ∧ e.KeepsRegister) past s) :
    s.Watchful tableOf (Stranded · past) := by
  induction run with
  | fresh =>
    exact ⟨books_fresh config, enrolled_fresh config, alert_fresh config, numbered_fresh config⟩
  | next _ complete allowed ih => exact ih.after complete allowed.1 allowed.2.1 allowed.2.2

theorem Watchful.wakes (watchful : s.Watchful tableOf silent) (ns : List Nat) :
    (s.afterAll w (ns.map .wake)).Watchful tableOf silent := by
  induction ns generalizing s with
  | nil => exact watchful
  | cons n ns ih => exact ih (watchful.wake n)

theorem Watchful.settle (watchful : s.Watchful tableOf silent) :
    s.settle.1.Watchful tableOf silent :=
  watchful.path (settle_path (fun _ _ => ⟨trivial, trivial, trivial⟩)
    (fun _ _ => ⟨trivial, trivial, trivial⟩) (fun _ _ => ⟨trivial, trivial, trivial⟩)
    fun _ => ⟨trivial, trivial, trivial⟩)

theorem isQuiet_settleWithin (n : Nat) : (settleWithin n s).1.isQuiet = true := by
  induction n generalizing s with
  | zero => simp [settleWithin, doze, isQuiet]
  | succ n ih =>
    rw [settleWithin]
    split
    · simp [doze, isQuiet]
    · exact ih

/-- Once all have looked who have been told, nobody sleeps whose transaction is aborted. -/
theorem Watchful.awake (watchful : s.Watchful tableOf fun _ => False)
    (quiet : s.isQuiet = true) : s.Awake := by
  intro v asleep
  by_contra dead
  have untold := untold_of_isQuiet quiet asleep
  rcases watchful.alert.told v asleep (by simpa using dead) with told | never
  · rw [untold] at told
    cases told
  · exact never

theorem passes_succ (n : Nat) : (s.passes w (n + 1)).1 = ((s.pass w).1.passes w n).1 := by
  rw [passes, Prod.map_fst, id]

/-- Each pass of the background detector, with all that follows from it, leaves nobody asleep
whose transaction is aborted. -/
theorem Watchful.passes (watchful : s.Watchful tableOf silent) (complete : w.Complete) (n : Nat) :
    (s.passes w (n + 1)).1.Watchful tableOf (fun _ => False) ∧
      (s.passes w (n + 1)).1.isQuiet = true := by
  have passed : (s.pass w).1.Watchful tableOf fun _ => False := (watchful.detect complete).settle
  rw [passes_succ]
  induction n generalizing s silent with
  | zero => exact ⟨passed, isQuiet_settleWithin _⟩
  | succ n ih =>
    rw [passes_succ]
    exact ih passed (passed.detect complete).settle

theorem Watchful.advance (watchful : s.Watchful tableOf silent) (complete : w.Complete) {ms : Nat}
    (due : 0 < s.detector.due s.config.interval ms) : (s.advance w ms).1.Awake := by
  obtain ⟨n, count⟩ := Nat.exists_eq_succ_of_ne_zero (Nat.ne_of_gt due)
  obtain ⟨passed, quiet⟩ := watchful.passes complete n
  rw [← Nat.succ_eq_add_one, ← count] at passed quiet
  exact passed.awake quiet

/-- In every run whose clients let nothing happen to a transaction with a call asleep but an abort,
and strike nobody off: once all calls have looked that have been told something, each that sleeps
has its own request in its queue, which waits, and its transaction is not aborted unless its state
was set so meanwhile. After a detection pass, and after what the background detector does when a
pass is due, once all have looked again, nobody at all sleeps whose transaction is aborted. And a
call looks at its queue only when it has been told. -/
theorem no_lost_wakeup (run : Run config
    (fun s e => e.Fair tableOf s ∧ e.OnlyAborted s ∧ e.KeepsRegister) past s) :
    (s.isQuiet = true → ∀ v ∈ s.sleepers,
      (∃ x ∈ (s.queue v.resource.key).requests,
        x.IsFor (s.txn v.handle).id v.resource v.mode ∧ x.call = v.call ∧ x.granted = false) ∧
      ((s.txn v.handle).isAborted = true → Stranded v.handle past)) ∧
    (∀ w, w.Complete → (s.detect w).1.settle.1.Awake ∧
      (∀ ns : List Nat, ((s.detect w).1.afterAll w (ns.map .wake)).isQuiet = true →
        ((s.detect w).1.afterAll w (ns.map .wake)).Awake) ∧
      ∀ ms, 0 < s.detector.due s.config.interval ms → (s.advance w ms).1.Awake) ∧
    ∀ v ∈ s.sleepers, ∀ w e, e.Fair tableOf s →
      (∃ v' ∈ (s.after w e).sleepers, v'.hushed = v.hushed) ∨
        e = .wake v.call ∧ v.notified = true := by
  have watchful := run.watchful
  refine ⟨fun quiet v asleep => ?_, fun w complete => ?_,
    fun v asleep w e fair => asleep_after w watchful.books fair asleep⟩
  · have untold := untold_of_isQuiet quiet asleep
    obtain ⟨x, hx, isFor, waits⟩ := watchful.books.waits asleep untold
    obtain ⟨y, hy, own, number⟩ := watchful.numbered v asleep
    obtain rfl := watchful.books.unique hy hx (own.trans isFor.txn.symm)
    refine ⟨⟨y, hx, isFor, number, waits⟩, fun aborted => ?_⟩
    refine (watchful.alert.told v asleep aborted).resolve_left ?_
    rw [untold]
    exact Bool.false_ne_true
  · have passed := watchful.detect complete
    exact ⟨passed.settle.awake (isQuiet_settleWithin _),
      fun ns quiet => (passed.wakes ns).awake quiet, fun ms due => watchful.advance complete due⟩

/-- For instance when the first of two that wait for a writer is set to be aborted: he sleeps on
until a pass finds him. -/
theorem no_lost_wakeup_of_set_aborted :
    let s := (fresh {}).afterAll .ascending
      [.op (.begin .repeatableRead), .op (.begin .repeatableRead), .op (.begin .repeatableRead),
        .op (.lock ⟨3, 0, .exclusive, .table 1⟩), .op (.lock ⟨4, 1, .exclusive, .table 1⟩),
        .op (.lock ⟨5, 2, .exclusive, .table 1⟩), .wake 4, .op (.setState 1 .aborted)]
    s.isQuiet = true ∧ s.callers = [1, 2] ∧ (s.txn 1).isAborted = true ∧
      (∃ past, Stranded 1 past ∧
        Run {} (fun s e => e.Fair (fun _ => 1) s ∧ e.OnlyAborted s ∧ e.KeepsRegister) past s) ∧
      (s.detect .ascending).1.settle.1.Awake ∧ (s.detect .ascending).1.settle.1.callers = [2] := by
  intro s
  have reach : Reachable {}
      (fun s e => e.Fair (fun _ => 1) s ∧ e.OnlyAborted s ∧ e.KeepsRegister) s :=
    Reachable.afterAll Walk.complete_ascending .fresh (by decide +kernel)
  obtain ⟨past, run⟩ := reach.exists_run
  obtain ⟨waits, passes, -⟩ := no_lost_wakeup run
  have quiet : s.isQuiet = true := by decide +kernel
  have aborted : (s.txn 1).isAborted = true := by decide +kernel
  obtain ⟨v, asleep, mine⟩ : s.HasCall 1 := by decide +kernel
  have stranded := (waits quiet v asleep).2
  rw [mine] at stranded
  exact ⟨quiet, by decide +kernel, aborted, ⟨past, stranded aborted, run⟩,
    (passes .ascending Walk.complete_ascending).1, by decide +kernel⟩

section Interrupted

variable {c : LockCall} {held : Option Mode} {pause : LockGap → Engine → Engine}

/-- The call has joined those who sleep, and has to. -/
def Dozes (s : Engine) (c : LockCall) : Prop :=
  ∃ upgradeOf, c.sleeper upgradeOf ∈ s.sleepers ∧ s.isReady (c.sleeper upgradeOf) = false

theorem dozes_await (asleep : (s.await c held).2 = .asleep) : (s.await c held).1.Dozes c := by
  unfold await at asleep ⊢
  dsimp only at asleep ⊢
  split at asleep
  · cases asleep
  · rename_i waits
    split at asleep
    · cases asleep
    · rename_i live
      rw [if_neg waits, if_neg live]
      rw [Bool.not_eq_true] at waits live
      exact ⟨held, List.mem_append_right _ (List.mem_singleton_self _),
        Bool.or_eq_false_iff.2 ⟨waits, live⟩⟩

theorem dozes_enqueue (asleep : (enqueue pause s c held).2 = .asleep) :
    (enqueue pause s c held).1.Dozes c := by
  unfold enqueue at asleep ⊢
  dsimp only at asleep ⊢
  cases held with
  | none => exact dozes_await asleep
  | some m =>
    dsimp only at asleep ⊢
    split at asleep
    · cases asleep
    · rename_i free
      split at asleep
      · rename_i there
        rw [if_neg free, if_pos there]
        exact dozes_await asleep
      · cases asleep

/-- Whatever happens at the gaps of a lock call, it does not fall asleep with its transaction
aborted or its lock granted. -/
theorem dozes_lockWith (asleep : (s.lockWith pause c).2 = .asleep) :
    (s.lockWith pause c).1.Dozes c := by
  unfold lockWith at asleep ⊢
  dsimp only at asleep ⊢
  split at asleep
  · cases asleep
  · rename_i active
    rw [if_neg active]
    split at asleep
    · cases asleep
    · rename_i differs
      rw [if_neg differs]
      split at asleep
      · cases asleep
      · exact dozes_enqueue asleep

end Interrupted

end Engine

end TwoPhaseLocking

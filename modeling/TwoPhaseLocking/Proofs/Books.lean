import TwoPhaseLocking.Proofs.Paths
import TwoPhaseLocking.Proofs.Queue

/-! # The books: recorded locks, sleeping calls and queued requests

As long as every transaction has an identifier of its own, one lock call at a time and a
fixed table for each row, a request stands in a queue exactly if it is a recorded lock or
a call that sleeps. The books say so for every state between two moves, also while calls
are under way that have been granted and do not know it yet.
-/

namespace TwoPhaseLocking

/-- The request is one of the transaction `id` for `r` in mode `m`. -/
structure Request.IsFor (x : Request) (id : TxnId) (r : Resource) (m : Mode) : Prop where
  txn : x.txn = id
  resource : x.resource = r
  mode : x.mode = m

theorem Request.GrownTo.isFor {a b : Request} (grown : a.GrownTo b) {id : TxnId} {r : Resource}
    {m : Mode} (h : a.IsFor id r m) : b.IsFor id r m := by
  obtain ⟨txn, mode, resource, -⟩ := grown.same
  exact ⟨txn.trans h.txn, resource.trans h.resource, mode.trans h.mode⟩

namespace Engine

/-- The transaction has the request's lock on record, or a call asleep that made it. -/
def Backs (s : Engine) (h : Handle) (x : Request) : Prop :=
  x.granted = true ∧ (⟨x.resource, x.mode⟩ : Lock) ∈ (s.txn h).locks ∨
    ∃ w ∈ s.sleepers, w.handle = h ∧ w.resource = x.resource ∧ w.mode = x.mode

/-- What the sleeping call has in its queue and on record. -/
structure Awaits (s : Engine) (w : Sleeper) : Prop where
  /-- Its request is there, and it has been told if that is granted. -/
  asked : ∃ x ∈ (s.queue w.resource.key).requests,
    x.IsFor (s.txn w.handle).id w.resource w.mode ∧ (x.granted = true → w.notified = true)
  /-- Its transaction has no lock on the resource meanwhile. -/
  apart : ∀ m, (⟨w.resource, m⟩ : Lock) ∉ (s.txn w.handle).locks
  plain : w.resource.isRow = true → w.mode.isIntention = false

/-- Recorded locks, sleeping calls and queued requests go together. -/
structure Books (tableOf : RowId → TableId) (s : Engine) : Prop where
  ids : ∀ h h', h < s.txns.size → h' < s.txns.size → (s.txn h).id = (s.txn h').id → h = h'
  known : ∀ w ∈ s.sleepers, w.handle < s.txns.size
  calls : s.callers.Nodup
  tables : ∀ k, ∀ x ∈ (s.queue k).requests, x.resource.Known tableOf
  placed : ∀ k, ∀ x ∈ (s.queue k).requests, x.resource.key = k
  once : ∀ k, (s.queue k).Once
  backed : ∀ k, ∀ x ∈ (s.queue k).requests,
    ∃ h < s.txns.size, x.txn = (s.txn h).id ∧ s.Backs h x
  recorded : ∀ h r m, (⟨r, m⟩ : Lock) ∈ (s.txn h).locks →
    ∃ x ∈ (s.queue r.key).requests, x.IsFor (s.txn h).id r m ∧ x.granted = true
  awaits : ∀ w ∈ s.sleepers, s.Awaits w

variable {tableOf : RowId → TableId} {s s' : Engine} {h : Handle} {k : QueueKey}

theorem books_fresh (config : Config) : (fresh config).Books tableOf where
  ids h h' lt := by simp [fresh] at lt
  known := by simp [fresh]
  calls := by simp [fresh, callers]
  tables := by simp [fresh, queue]
  placed := by simp [fresh, queue]
  once := by simp [fresh, queue, Queue.Once]
  backed := by simp [fresh, queue]
  recorded h r m there := by
    have lt := lt_size_of_mem_locks there
    simp [fresh] at lt
  awaits := by simp [fresh]

namespace Books

/-- Identifiers tell transactions apart. -/
theorem id_ne (books : s.Books tableOf) {h' : Handle} (lt : h < s.txns.size)
    (lt' : h' < s.txns.size) (ne : h' ≠ h) : (s.txn h').id ≠ (s.txn h).id :=
  fun same => ne (books.ids h' h lt' lt same)

/-- A recorded row belongs to its table. -/
theorem known_of_mem (books : s.Books tableOf) {r : Resource} {m : Mode}
    (there : (⟨r, m⟩ : Lock) ∈ (s.txn h).locks) : r.Known tableOf := by
  obtain ⟨x, hx, isFor, -⟩ := books.recorded h r m there
  rw [← isFor.resource]
  exact books.tables _ x hx

theorem known_of_asleep (books : s.Books tableOf) {w : Sleeper} (asleep : w ∈ s.sleepers) :
    w.resource.Known tableOf := by
  obtain ⟨x, hx, isFor, -⟩ := (books.awaits w asleep).asked
  rw [← isFor.resource]
  exact books.tables _ x hx

/-- A transaction has one request in a queue at most, so one lock or one call. -/
theorem unique (books : s.Books tableOf) {x y : Request} (hx : x ∈ (s.queue k).requests)
    (hy : y ∈ (s.queue k).requests) (same : x.txn = y.txn) : x = y :=
  (books.once k).eq hx hy same

/-- Two locks in one queue are the same lock. -/
theorem lock_unique (books : s.Books tableOf) {r r' : Resource} {m m' : Mode}
    (there : (⟨r, m⟩ : Lock) ∈ (s.txn h).locks) (there' : (⟨r', m'⟩ : Lock) ∈ (s.txn h).locks)
    (same : r.key = r'.key) : r = r' ∧ m = m' := by
  obtain ⟨x, hx, isFor, -⟩ := books.recorded h r m there
  obtain ⟨x', hx', isFor', -⟩ := books.recorded h r' m' there'
  rw [← same] at hx'
  obtain rfl := books.unique hx hx' (isFor.txn.trans isFor'.txn.symm)
  exact ⟨isFor.resource.symm.trans isFor'.resource, isFor.mode.symm.trans isFor'.mode⟩

/-- While a call sleeps, its transaction has no lock in the queue. -/
theorem not_mem_of_asleep (books : s.Books tableOf) {w : Sleeper} (asleep : w ∈ s.sleepers)
    {r : Resource} {m : Mode} (same : r.key = w.resource.key) :
    (⟨r, m⟩ : Lock) ∉ (s.txn w.handle).locks := by
  intro there
  rw [(books.known_of_mem there).eq (books.known_of_asleep asleep) same] at there
  exact (books.awaits w asleep).apart m there

/-- A transaction with no lock and no call has nothing in the queue. -/
theorem absent (books : s.Books tableOf) {r : Resource} (lt : h < s.txns.size)
    (known : r.Known tableOf) (free : (s.txn h).locks.mode? r = none) (noCall : ¬ s.HasCall h) :
    ∀ x ∈ (s.queue r.key).requests, x.txn ≠ (s.txn h).id := by
  intro x hx own
  have here : x.resource = r := (books.tables _ x hx).eq known (books.placed _ x hx)
  obtain ⟨h', lt', id, backs⟩ := books.backed _ x hx
  obtain rfl : h' = h := books.ids h' h lt' lt (id.symm.trans own)
  rcases backs with ⟨-, there⟩ | ⟨w, asleep, whose, -⟩
  · rw [here] at there
    exact LockSet.mode?_eq_none_iff.1 free x.mode there
  · exact noCall ⟨w, asleep, whose⟩

end Books

/-- The states differ at most in what transaction `h` has to do with queue `k`. -/
structure Edit (s : Engine) (h : Handle) (k : QueueKey) (s' : Engine) : Prop where
  size : s'.txns.size = s.txns.size
  ids : ∀ h', (s'.txn h').id = (s.txn h').id
  locks : ∀ h' r m, h' ≠ h ∨ r.key ≠ k →
    ((⟨r, m⟩ : Lock) ∈ (s'.txn h').locks ↔ (⟨r, m⟩ : Lock) ∈ (s.txn h').locks)
  queues : ∀ k', k' ≠ k → (s'.queue k').requests = (s.queue k').requests
  requests : ∀ x, x.txn ≠ (s.txn h).id →
    (x ∈ (s'.queue k).requests ↔ x ∈ (s.queue k).requests)
  sleepers : ∀ w, w.handle ≠ h ∨ w.resource.key ≠ k → (w ∈ s'.sleepers ↔ w ∈ s.sleepers)

theorem Edit.mem {x : Request} {k' : QueueKey} (edit : s.Edit h k s')
    (other : k' ≠ k ∨ x.txn ≠ (s.txn h).id) :
    x ∈ (s'.queue k').requests ↔ x ∈ (s.queue k').requests := by
  rcases other with other | other
  · rw [edit.queues k' other]
  · by_cases same : k' = k
    · rw [same]
      exact edit.requests x other
    · rw [edit.queues k' same]

/-- The books stay right when they are right about what has changed. -/
theorem Books.edit (books : s.Books tableOf) (edit : s.Edit h k s') (lt : h < s.txns.size)
    (calls : s'.callers.Nodup) (once : (s'.queue k).Once)
    (own : ∀ x ∈ (s'.queue k).requests, x.txn = (s.txn h).id →
      x.resource.Known tableOf ∧ x.resource.key = k ∧ s'.Backs h x)
    (recorded : ∀ r m, r.key = k → (⟨r, m⟩ : Lock) ∈ (s'.txn h).locks →
      ∃ x ∈ (s'.queue r.key).requests, x.IsFor (s'.txn h).id r m ∧ x.granted = true)
    (awaits : ∀ w ∈ s'.sleepers, w.handle = h → w.resource.key = k → s'.Awaits w) :
    s'.Books tableOf where
  ids h₁ h₂ := by
    rw [edit.size, edit.ids, edit.ids]
    exact books.ids h₁ h₂
  known w asleep := by
    rw [edit.size]
    by_cases mine : w.handle = h
    · rw [mine]
      exact lt
    · exact books.known w ((edit.sleepers w (.inl mine)).1 asleep)
  calls := calls
  tables k' x hx := by
    by_cases mine : k' = k ∧ x.txn = (s.txn h).id
    · rw [mine.1] at hx
      exact (own x hx mine.2).1
    · exact books.tables k' x ((edit.mem (not_and_or.1 mine)).1 hx)
  placed k' x hx := by
    by_cases mine : k' = k ∧ x.txn = (s.txn h).id
    · rw [mine.1] at hx ⊢
      exact (own x hx mine.2).2.1
    · exact books.placed k' x ((edit.mem (not_and_or.1 mine)).1 hx)
  once k' := by
    by_cases same : k' = k
    · rw [same]
      exact once
    · rw [Queue.Once, edit.queues k' same]
      exact books.once k'
  backed k' x hx := by
    rw [edit.size]
    by_cases mine : k' = k ∧ x.txn = (s.txn h).id
    · rw [mine.1] at hx
      exact ⟨h, lt, mine.2.trans (edit.ids h).symm, (own x hx mine.2).2.2⟩
    · have before := (edit.mem (not_and_or.1 mine)).1 hx
      obtain ⟨h', lt', id, backs⟩ := books.backed k' x before
      have other : h' ≠ h ∨ x.resource.key ≠ k := by
        rw [books.placed k' x before]
        by_contra both
        push Not at both
        rw [both.1] at id
        exact mine ⟨both.2, id⟩
      refine ⟨h', lt', id.trans (edit.ids h').symm, ?_⟩
      rcases backs with ⟨granted, there⟩ | ⟨w, asleep, whose, on, mode⟩
      · exact .inl ⟨granted, (edit.locks h' _ _ other).2 there⟩
      · rw [← whose, ← on] at other
        exact .inr ⟨w, (edit.sleepers w other).2 asleep, whose, on, mode⟩
  recorded h' r m there := by
    by_cases mine : h' = h ∧ r.key = k
    · rw [mine.1] at there ⊢
      exact recorded r m mine.2 there
    · have before := (edit.locks h' r m (not_and_or.1 mine)).1 there
      obtain ⟨x, hx, isFor, granted⟩ := books.recorded h' r m before
      have other : r.key ≠ k ∨ x.txn ≠ (s.txn h).id := by
        rw [isFor.txn]
        exact (not_and_or.1 mine).symm.imp id (books.id_ne lt (lt_size_of_mem_locks before))
      exact ⟨x, (edit.mem other).2 hx, ⟨isFor.txn.trans (edit.ids h').symm, isFor.resource,
        isFor.mode⟩, granted⟩
  awaits w asleep := by
    by_cases mine : w.handle = h ∧ w.resource.key = k
    · exact awaits w asleep mine.1 mine.2
    · have before := (edit.sleepers w (not_and_or.1 mine)).1 asleep
      obtain ⟨⟨x, hx, isFor, told⟩, apart, plain⟩ := books.awaits w before
      have other : w.resource.key ≠ k ∨ x.txn ≠ (s.txn h).id := by
        rw [isFor.txn]
        exact (not_and_or.1 mine).symm.imp id (books.id_ne lt (books.known w before))
      refine ⟨⟨x, (edit.mem other).2 hx, ⟨isFor.txn.trans (edit.ids _).symm, isFor.resource,
        isFor.mode⟩, told⟩, fun m => ?_, plain⟩
      rw [edit.locks w.handle w.resource m (not_and_or.1 mine)]
      exact apart m

/-- The transaction has left the queue, with its lock or its call. -/
theorem Books.edit_gone (books : s.Books tableOf) (edit : s.Edit h k s') (lt : h < s.txns.size)
    (calls : s'.callers.Nodup) (once : (s'.queue k).Once)
    (requests : ∀ x ∈ (s'.queue k).requests, x.txn ≠ (s.txn h).id)
    (locks : ∀ r m, r.key = k → (⟨r, m⟩ : Lock) ∉ (s'.txn h).locks)
    (sleepers : ∀ w ∈ s'.sleepers, w.handle = h → w.resource.key ≠ k) : s'.Books tableOf := by
  refine books.edit edit lt calls once ?_ ?_ ?_
  · exact fun x hx own => absurd own (requests x hx)
  · exact fun r m key there => absurd there (locks r m key)
  · exact fun w asleep whose key => absurd key (sleepers w asleep whose)

/-- The call `w` sleeps, and its request is all the transaction has in the queue. -/
theorem Books.edit_asleep (books : s.Books tableOf) {w : Sleeper} {x : Request}
    (edit : s.Edit w.handle w.resource.key s') (lt : w.handle < s.txns.size)
    (calls : s'.callers.Nodup) (once : (s'.queue w.resource.key).Once)
    (known : w.resource.Known tableOf) (plain : w.resource.isRow = true → w.mode.isIntention = false)
    (there : x ∈ (s'.queue w.resource.key).requests)
    (isFor : x.IsFor (s.txn w.handle).id w.resource w.mode)
    (told : x.granted = true → w.notified = true)
    (locks : ∀ r m, r.key = w.resource.key → (⟨r, m⟩ : Lock) ∉ (s'.txn w.handle).locks)
    (asleep : w ∈ s'.sleepers) : s'.Books tableOf := by
  refine books.edit edit lt calls once ?_ ?_ ?_
  · intro y hy own
    obtain rfl := once.eq hy there (own.trans isFor.txn.symm)
    refine ⟨?_, ?_, .inr ⟨w, asleep, rfl, isFor.resource.symm, isFor.mode.symm⟩⟩
    · rw [isFor.resource]
      exact known
    · rw [isFor.resource]
  · exact fun r m key own => absurd own (locks r m key)
  · intro v awake whose _
    obtain rfl : v = w := List.inj_on_of_nodup_map calls awake asleep whose
    exact ⟨⟨x, there, ⟨isFor.txn.trans (edit.ids _).symm, isFor.resource, isFor.mode⟩, told⟩,
      fun m => locks _ m rfl, plain⟩

theorem mem_sleepers_grantAndNotify {w : Sleeper} : w ∈ (s.grantAndNotify k).sleepers ↔
    ∃ v ∈ s.sleepers, (if v.resource.key = k then { v with notified := true } else v) = w := by
  simp [grantAndNotify]

theorem exists_of_mem_grantAndNotify {k' : QueueKey} {b : Request}
    (hb : b ∈ ((s.grantAndNotify k).queue k').requests) :
    ∃ a ∈ (s.queue k').requests, a.GrownTo b := by
  rw [queue_grantAndNotify] at hb
  split at hb
  · rename_i same
    rw [← same]
    exact Queue.exists_of_mem_grant hb
  · exact ⟨b, hb, .refl b⟩

theorem exists_mem_grantAndNotify {k' : QueueKey} {a : Request}
    (ha : a ∈ (s.queue k').requests) :
    ∃ b ∈ ((s.grantAndNotify k).queue k').requests, a.GrownTo b ∧ (k ≠ k' → b = a) := by
  rw [queue_grantAndNotify]
  split
  · rename_i same
    rw [← same] at ha
    obtain ⟨b, hb, grown⟩ := Queue.exists_mem_grant ha
    exact ⟨b, hb, grown, fun other => absurd same other⟩
  · exact ⟨a, ha, .refl a, fun _ => rfl⟩

/-- A grant pass turns requests into granted ones and tells their calls. -/
theorem Books.grantAndNotify (books : s.Books tableOf) (k : QueueKey) :
    (s.grantAndNotify k).Books tableOf := by
  constructor
  case ids => exact books.ids
  case known =>
    intro w asleep
    obtain ⟨v, asleep', rfl⟩ := mem_sleepers_grantAndNotify.1 asleep
    have lt := books.known v asleep'
    split <;> exact lt
  case calls =>
    rw [callers_grantAndNotify]
    exact books.calls
  case tables =>
    intro k' b hb
    obtain ⟨a, ha, grown⟩ := exists_of_mem_grantAndNotify hb
    rw [grown.same.2.2.1]
    exact books.tables k' a ha
  case placed =>
    intro k' b hb
    obtain ⟨a, ha, grown⟩ := exists_of_mem_grantAndNotify hb
    rw [grown.same.2.2.1]
    exact books.placed k' a ha
  case once =>
    intro k'
    rw [queue_grantAndNotify]
    split
    · exact (books.once k).grant
    · exact books.once k'
  case backed =>
    intro k' b hb
    obtain ⟨a, ha, grown⟩ := exists_of_mem_grantAndNotify hb
    obtain ⟨h, lt, id, backs⟩ := books.backed k' a ha
    obtain ⟨txn, mode, resource, -⟩ := grown.same
    refine ⟨h, lt, txn.trans id, ?_⟩
    rw [Backs, mode, resource]
    rcases backs with ⟨granted, there⟩ | ⟨w, asleep, same⟩
    · exact .inl ⟨grown.2 granted, there⟩
    · refine .inr ⟨_, mem_sleepers_grantAndNotify.2 ⟨w, asleep, rfl⟩, ?_⟩
      split <;> exact same
  case recorded =>
    intro h r m there
    obtain ⟨a, ha, isFor, granted⟩ := books.recorded h r m there
    obtain ⟨b, hb, grown, -⟩ := exists_mem_grantAndNotify ha
    exact ⟨b, hb, grown.isFor isFor, grown.2 granted⟩
  case awaits =>
    intro w asleep
    obtain ⟨v, asleep', rfl⟩ := mem_sleepers_grantAndNotify.1 asleep
    obtain ⟨⟨a, ha, isFor, told⟩, apart, plain⟩ := books.awaits v asleep'
    obtain ⟨b, hb, grown, same⟩ := exists_mem_grantAndNotify ha
    split
    · exact ⟨⟨b, hb, grown.isFor isFor, fun _ => rfl⟩, apart, plain⟩
    · rename_i other
      rw [same (Ne.symm other)] at hb
      exact ⟨⟨a, hb, isFor, told⟩, apart, plain⟩

theorem nodup_callers_addSleeper {c : LockCall} {upgradeOf : Option Mode}
    (calls : s.callers.Nodup) (noCall : ¬ s.HasCall c.handle) :
    (s.addSleeper (c.sleeper upgradeOf)).callers.Nodup := by
  rw [callers_addSleeper, List.nodup_append]
  refine ⟨calls, by simp, fun a ha b hb => ?_⟩
  rintro rfl
  have mine : a = c.handle := List.mem_singleton.1 hb
  exact noCall (hasCall_iff.2 (mine ▸ ha))

/-- What the rules require of the mode of a row lock. -/
theorem Admits.plain {c : LockCall} {held : Option Mode} (admitted : s.Admits c held)
    (row : c.resource.isRow = true) : c.mode.isIntention = false := by
  have lawful := admitted.lawful
  simp only [Policy.request, row, ↓reduceIte, Option.or_eq_none_iff, Policy.rowMode] at lawful
  by_contra intention
  simp [intention] at lawful

theorem Books.join (books : s.Books tableOf) {c : LockCall} (admitted : s.Admits c none)
    (noCall : ¬ s.HasCall c.handle) (known : c.resource.Known tableOf) :
    ((s.pushRequest c).addSleeper (c.sleeper none)).Books tableOf := by
  have absent := books.absent admitted.known known admitted.holds noCall
  have edit : s.Edit c.handle c.resource.key ((s.pushRequest c).addSleeper (c.sleeper none)) := by
    constructor
    case size => rfl
    case ids => exact fun _ => rfl
    case locks => exact fun _ _ _ _ => .rfl
    case queues =>
      intro k' other
      rw [queue_addSleeper, queue_pushRequest, if_neg (Ne.symm other)]
    case requests =>
      intro x other
      rw [queue_addSleeper, queue_pushRequest, if_pos rfl, Queue.requests_push, List.mem_append,
        List.mem_singleton]
      refine ⟨fun hx => hx.resolve_right ?_, .inl⟩
      rintro rfl
      exact other rfl
    case sleepers =>
      intro w other
      refine (List.mem_append.trans ?_)
      refine ⟨fun asleep => asleep.resolve_right fun mine => ?_, .inl⟩
      rw [List.mem_singleton.1 mine] at other
      exact other.elim (absurd rfl) (absurd rfl)
  have queue : ((s.pushRequest c).addSleeper (c.sleeper none)).queue c.resource.key =
      (s.queue c.resource.key).push (c.request (s.txn c.handle).id) := by
    rw [queue_addSleeper, queue_pushRequest, if_pos rfl]
  refine books.edit_asleep (w := c.sleeper none) (x := c.request (s.txn c.handle).id) edit
    admitted.known (nodup_callers_addSleeper books.calls noCall) ?_ known admitted.plain ?_
    ⟨rfl, rfl, rfl⟩ (fun granted => nomatch granted) ?_ ?_
  · exact queue ▸ (books.once _).push absent
  · exact queue ▸ (by simp)
  · intro r m key there
    rw [(books.known_of_mem there).eq known key] at there
    exact LockSet.mode?_eq_none_iff.1 admitted.holds m there
  · exact List.mem_append_right _ (List.mem_singleton_self _)

theorem Books.swap (books : s.Books tableOf) {c : LockCall} {old : Mode}
    (admitted : s.Admits c (some old)) (noCall : ¬ s.HasCall c.handle)
    (known : c.resource.Known tableOf) :
    ((s.swapRequest c old).addSleeper (c.sleeper (some old))).Books tableOf := by
  have held : (⟨c.resource, old⟩ : Lock) ∈ (s.txn c.handle).locks :=
    LockSet.mem_of_mode? admitted.holds
  have queue : ((s.swapRequest c old).addSleeper (c.sleeper (some old))).queue c.resource.key =
      ((s.queue c.resource.key).remove (s.txn c.handle).id).insertUpgrade
        (c.request (s.txn c.handle).id) := by
    rw [queue_addSleeper, queue_swapRequest, if_pos rfl]
  have edit : s.Edit c.handle c.resource.key
      ((s.swapRequest c old).addSleeper (c.sleeper (some old))) := by
    constructor
    case size => exact size_updateTxn _ _ _
    case ids => exact proj_updateTxn _ c.handle _ (·.id) fun _ => rfl
    case locks =>
      intro h' r m other
      refine mem_locks_updateTxn_forget.trans (and_iff_left ?_)
      rintro rfl eq
      cases eq
      exact other.elim (absurd rfl) (absurd rfl)
    case queues =>
      intro k' other
      rw [queue_addSleeper, queue_swapRequest, if_neg (Ne.symm other)]
    case requests =>
      intro x other
      rw [queue, Queue.mem_insertUpgrade, Queue.mem_remove_of_ne other]
      refine ⟨fun hx => hx.resolve_left ?_, .inr⟩
      rintro rfl
      exact other rfl
    case sleepers =>
      intro w other
      refine List.mem_append.trans ?_
      refine ⟨fun asleep => asleep.resolve_right fun mine => ?_, .inl⟩
      rw [List.mem_singleton.1 mine] at other
      exact other.elim (absurd rfl) (absurd rfl)
  refine books.edit_asleep (w := c.sleeper (some old)) (x := c.request (s.txn c.handle).id) edit
    admitted.known (nodup_callers_addSleeper books.calls noCall) ?_ known admitted.plain ?_
    ⟨rfl, rfl, rfl⟩ (fun granted => nomatch granted) ?_ ?_
  · have once := (books.once c.resource.key).remove (s.txn c.handle).id
    exact queue ▸ once.insertUpgrade fun x hx => (books.once c.resource.key).ne_of_mem_remove hx
  · exact queue ▸ Queue.mem_insertUpgrade.2 (.inl rfl)
  · intro r m key there
    obtain ⟨there, other⟩ := mem_locks_updateTxn_forget.1 there
    obtain ⟨rfl, rfl⟩ := books.lock_unique there held key
    exact other rfl rfl
  · exact List.mem_append_right _ (List.mem_singleton_self _)

theorem Books.give (books : s.Books tableOf) {r : Resource} {m : Mode}
    (held : (s.txn h).locks.mode? r = some m) : (s.dropLock h r m).Books tableOf := by
  have there := LockSet.mem_of_mode? held
  have queue : (s.dropLock h r m).queue r.key = (s.queue r.key).remove (s.txn h).id := by
    rw [queue_dropLock, if_pos rfl]
  have edit : s.Edit h r.key (s.dropLock h r m) := by
    constructor
    case size => exact size_updateTxn _ _ _
    case ids => exact proj_updateTxn _ h _ (·.id) fun _ => rfl
    case locks =>
      intro h' r' m' other
      refine mem_locks_updateTxn_forget.trans (and_iff_left ?_)
      rintro rfl eq
      cases eq
      exact other.elim (absurd rfl) (absurd rfl)
    case queues =>
      intro k' other
      rw [queue_dropLock, if_neg (Ne.symm other)]
    case requests =>
      intro x other
      rw [queue, Queue.mem_remove_of_ne other]
    case sleepers => exact fun _ _ => .rfl
  refine books.edit_gone edit (lt_size_of_mem_locks there) books.calls ?_ ?_ ?_ ?_
  · exact queue ▸ (books.once r.key).remove _
  · intro x hx
    rw [queue] at hx
    exact (books.once r.key).ne_of_mem_remove hx
  · intro r' m' key there'
    obtain ⟨there', other⟩ := mem_locks_updateTxn_forget.1 there'
    obtain ⟨rfl, rfl⟩ := books.lock_unique there' there key
    exact other rfl rfl
  · rintro w asleep rfl key
    exact books.not_mem_of_asleep asleep key.symm there

/-- No other call of the same transaction sleeps. -/
theorem Books.others (books : s.Books tableOf) {w : Sleeper} {xs ys : List Sleeper}
    (asleep : s.sleepers = xs ++ w :: ys) : ∀ v ∈ xs ++ ys, v.handle ≠ w.handle := by
  have calls := books.calls
  rw [callers, asleep, List.map_append, List.map_cons, List.nodup_middle, List.nodup_cons,
    ← List.map_append] at calls
  exact fun v hv same => calls.1 (List.mem_map.2 ⟨v, hv, same⟩)

/-- A call that has gone leaves the others asleep. -/
theorem mem_rest_iff {v w : Sleeper} {xs ys : List Sleeper} (asleep : s.sleepers = xs ++ w :: ys)
    (other : v.handle ≠ w.handle ∨ v.resource.key ≠ w.resource.key) :
    v ∈ xs ++ ys ↔ v ∈ s.sleepers := by
  refine ⟨fun hv => (rest_sublist asleep).subset hv, fun hv => mem_rest_of_ne asleep hv ?_⟩
  rintro rfl
  exact other.elim (absurd rfl) (absurd rfl)

theorem Books.take (books : s.Books tableOf) {w : Sleeper} {xs ys : List Sleeper}
    (asleep : s.sleepers = xs ++ w :: ys)
    (granted : (s.queue w.resource.key).isGranted (s.txn w.handle).id = true) :
    (({ s with sleepers := xs ++ ys }.updateQueue w.resource.key
      (·.clearUpgrading (s.txn w.handle).id)).updateTxn w.handle
        (·.record w.resource w.mode)).Books tableOf := by
  have here := mem_split asleep
  have lt := books.known w here
  obtain ⟨⟨x, hx, isFor, -⟩, -, plain⟩ := books.awaits w here
  have held : x.granted = true := by
    obtain ⟨y, hy, own, granted⟩ := Queue.exists_of_isGranted granted
    rw [books.unique hx hy (isFor.txn.trans own.symm)]
    exact granted
  have requests (k' : QueueKey) : (({ s with sleepers := xs ++ ys }.updateQueue w.resource.key
      (·.clearUpgrading (s.txn w.handle).id)).queue k').requests = (s.queue k').requests := by
    rw [queue_updateQueue]
    split
    · rename_i same
      rw [← same]
      exact Queue.requests_clearUpgrading _ _
    · rfl
  refine books.edit (h := w.handle) (k := w.resource.key) ?_ lt
    (books.calls.sublist (callers_rest_sublist asleep)) ?_ ?_ ?_ ?_
  · constructor
    case size => exact size_updateTxn _ _ _
    case ids => exact proj_updateTxn _ w.handle _ (·.id) fun _ => rfl
    case locks =>
      intro h' r m other
      refine (mem_locks_updateTxn_record lt plain).trans ⟨fun there => ?_, .inr⟩
      refine there.resolve_left ?_
      rintro ⟨rfl, eq⟩
      cases eq
      exact other.elim (absurd rfl) (absurd rfl)
    case queues => exact fun k' _ => requests k'
    case requests => exact fun x _ => Eq.to_iff (congrArg (x ∈ ·) (requests _))
    case sleepers => exact fun v other => mem_rest_iff asleep other
  · rw [Queue.Once, queue_updateTxn, requests]
    exact books.once _
  · intro y hy own
    rw [queue_updateTxn, requests] at hy
    obtain rfl := books.unique hy hx (own.trans isFor.txn.symm)
    refine ⟨books.tables _ y hy, books.placed _ y hy, .inl ⟨held, ?_⟩⟩
    rw [isFor.resource, isFor.mode]
    exact (mem_locks_updateTxn_record lt plain).2 (.inl ⟨rfl, rfl⟩)
  · intro r m key there
    rcases (mem_locks_updateTxn_record lt plain).1 there with ⟨-, eq⟩ | there
    · cases eq
      rw [queue_updateTxn, requests]
      refine ⟨x, hx, ⟨isFor.txn.trans ?_, isFor.resource, isFor.mode⟩, held⟩
      exact (proj_updateTxn _ w.handle (·.record w.resource w.mode) (·.id) (fun _ => rfl) _).symm
    · exact absurd there (books.not_mem_of_asleep here key)
  · intro v awake whose
    exact absurd whose (books.others asleep v awake)

theorem Books.quit (books : s.Books tableOf) {w : Sleeper} {xs ys : List Sleeper}
    (asleep : s.sleepers = xs ++ w :: ys) :
    (({ s with sleepers := xs ++ ys }.updateQueue w.resource.key
      (·.clearUpgrading (s.txn w.handle).id)).updateQueue w.resource.key
        (·.remove (s.txn w.handle).id)).Books tableOf := by
  have here := mem_split asleep
  have queue : (({ s with sleepers := xs ++ ys }.updateQueue w.resource.key
      (·.clearUpgrading (s.txn w.handle).id)).updateQueue w.resource.key
        (·.remove (s.txn w.handle).id)).queue w.resource.key =
      ((s.queue w.resource.key).clearUpgrading (s.txn w.handle).id).remove (s.txn w.handle).id := by
    rw [queue_updateQueue, if_pos rfl, queue_updateQueue, if_pos rfl]
    rfl
  have once : ((s.queue w.resource.key).clearUpgrading (s.txn w.handle).id).Once := by
    rw [Queue.Once, Queue.requests_clearUpgrading]
    exact books.once _
  refine books.edit_gone (h := w.handle) (k := w.resource.key) ?_ (books.known w here)
    (books.calls.sublist (callers_rest_sublist asleep)) ?_ ?_ ?_ ?_
  · constructor
    case size => rfl
    case ids => exact fun _ => rfl
    case locks => exact fun _ _ _ _ => .rfl
    case queues =>
      intro k' other
      rw [queue_updateQueue, if_neg (Ne.symm other), queue_updateQueue, if_neg (Ne.symm other)]
      rfl
    case requests =>
      intro x other
      rw [queue, Queue.mem_remove_of_ne other, Queue.requests_clearUpgrading]
    case sleepers => exact fun v other => mem_rest_iff asleep other
  · exact queue ▸ once.remove _
  · intro x hx
    rw [queue] at hx
    exact once.ne_of_mem_remove hx
  · exact fun r m key => books.not_mem_of_asleep here key
  · exact fun v awake whose => absurd whose (books.others asleep v awake)

theorem Books.doze (books : s.Books tableOf) {w : Sleeper} {xs ys : List Sleeper}
    (asleep : s.sleepers = xs ++ w :: ys) (waits : s.isReady w = false) :
    Books tableOf { s with sleepers := xs ++ { w with notified := false } :: ys } := by
  have here := mem_split asleep
  obtain ⟨⟨x, hx, isFor, -⟩, -, plain⟩ := books.awaits w here
  refine books.edit_asleep (w := { w with notified := false }) ?_ (books.known w here) ?_
    (books.once _) (books.known_of_asleep (w := w) here) plain hx isFor (fun granted => ?_)
    (fun r m key => books.not_mem_of_asleep here key) (by simp)
  · constructor
    case size => rfl
    case ids => exact fun _ => rfl
    case locks => exact fun _ _ _ _ => .rfl
    case queues => exact fun _ _ => rfl
    case requests => exact fun _ _ => .rfl
    case sleepers =>
      intro v other
      rw [← mem_rest_iff asleep other, List.perm_middle.mem_iff, List.mem_cons]
      refine ⟨fun hv => hv.resolve_left ?_, .inr⟩
      rintro rfl
      exact other.elim (absurd rfl) (absurd rfl)
  · have calls := books.calls
    rw [callers, asleep] at calls
    simpa [callers] using calls
  · have ready := (books.once _).isGranted_of_mem hx granted
    rw [isFor.txn] at ready
    rw [isReady, ready, Bool.true_or] at waits
    cases waits

/-- The books are about identifiers and locks, requests and calls, and nothing else. -/
theorem Books.congr (books : s.Books tableOf) (size : s'.txns.size = s.txns.size)
    (ids : ∀ h, (s'.txn h).id = (s.txn h).id) (locks : ∀ h, (s'.txn h).locks = (s.txn h).locks)
    (requests : ∀ k, (s'.queue k).requests = (s.queue k).requests)
    (sleepers : s'.sleepers = s.sleepers) : s'.Books tableOf := by
  obtain ⟨distinct, known, calls, tables, placed, once, backed, recorded, awaits⟩ := books
  constructor
  case ids => simpa only [size, ids] using distinct
  case known => simpa only [size, sleepers] using known
  case calls => simpa only [callers, sleepers] using calls
  case tables => simpa only [requests] using tables
  case placed => simpa only [requests] using placed
  case once => simpa only [Queue.Once, requests] using once
  case backed => simpa only [Backs, size, ids, locks, requests, sleepers] using backed
  case recorded => simpa only [ids, locks, requests] using recorded
  case awaits =>
    intro w asleep
    rw [sleepers] at asleep
    obtain ⟨asked, apart, plain⟩ := awaits w asleep
    exact ⟨by simpa only [requests, ids] using asked, by simpa only [locks] using apart, plain⟩

theorem txn_mem (lt : h < s.txns.size) : s.txn h ∈ s.txns := by
  simp [txn, Array.getD_eq_getD_getElem?, lt]

/-- No two transactions go by the same identifier. -/
def DistinctIds (s : Engine) : Prop :=
  ∀ h h', h < s.txns.size → h' < s.txns.size → (s.txn h).id = (s.txn h').id → h = h'

theorem DistinctIds.push (distinct : s.DistinctIds) {t : Transaction}
    (fresh : ∀ u ∈ s.txns, u.id ≠ t.id) : DistinctIds { s with txns := s.txns.push t } := by
  intro h h' lt lt' same
  have size : ({ s with txns := s.txns.push t } : Engine).txns.size = s.txns.size + 1 :=
    Array.size_push t
  rw [size, Nat.lt_succ_iff_lt_or_eq] at lt lt'
  rw [txn_push, txn_push] at same
  rcases lt with lt | rfl <;> rcases lt' with lt' | rfl
  · rw [if_neg (Nat.ne_of_lt lt), if_neg (Nat.ne_of_lt lt')] at same
    exact distinct h h' lt lt' same
  · rw [if_neg (Nat.ne_of_lt lt), if_pos rfl] at same
    exact absurd same (fresh _ (txn_mem lt))
  · rw [if_neg (Nat.ne_of_lt lt'), if_pos rfl] at same
    exact absurd same.symm (fresh _ (txn_mem lt'))
  · rfl

/-- A new transaction comes without locks, and under an identifier of its own. -/
theorem Books.push (books : s.Books tableOf) {t : Transaction} (fresh : ∀ u ∈ s.txns, u.id ≠ t.id)
    (empty : t.locks = ∅) : Books tableOf { s with txns := s.txns.push t } := by
  have size : ({ s with txns := s.txns.push t } : Engine).txns.size = s.txns.size + 1 :=
    Array.size_push t
  have old {h : Handle} (lt : h < s.txns.size) : txn { s with txns := s.txns.push t } h = s.txn h := by
    rw [txn_push, if_neg (Nat.ne_of_lt lt)]
  have new : txn { s with txns := s.txns.push t } s.txns.size = t := by
    rw [txn_push, if_pos rfl]
  constructor
  case ids => exact DistinctIds.push books.ids fresh
  case known =>
    intro w asleep
    rw [size]
    exact Nat.lt_succ_of_lt (books.known w asleep)
  case calls => exact books.calls
  case tables => exact books.tables
  case placed => exact books.placed
  case once => exact books.once
  case backed =>
    intro k x hx
    obtain ⟨h, lt, id, backs⟩ := books.backed k x hx
    refine ⟨h, by rw [size]; exact Nat.lt_succ_of_lt lt, ?_⟩
    rw [Backs, old lt]
    exact ⟨id, backs⟩
  case recorded =>
    intro h r m there
    have lt := lt_size_of_mem_locks there
    rw [size, Nat.lt_succ_iff_lt_or_eq] at lt
    rcases lt with lt | rfl
    · rw [old lt] at there ⊢
      exact books.recorded h r m there
    · rw [new, empty] at there
      exact absurd there (LockSet.not_mem_empty _)
  case awaits =>
    intro w asleep
    have same := old (books.known w asleep)
    obtain ⟨asked, apart, plain⟩ := books.awaits w asleep
    refine ⟨?_, ?_, plain⟩
    · rw [same]
      exact asked
    · rw [same]
      exact apart

/-- What the books rely on: new identifiers for new transactions, one lock call at a time, and
rows named with their tables. -/
def Fair (tableOf : RowId → TableId) (s : Engine) : Move → Prop
  | .begin _ => ∀ t ∈ s.txns, t.id ≠ s.nextId
  | .adopt id _ => ∀ t ∈ s.txns, t.id ≠ id
  | .join c | .swap c _ => ¬ s.HasCall c.handle ∧ c.resource.Known tableOf
  | _ => True

theorem Books.move {m : Move} (books : s.Books tableOf) (does : s.Does m s')
    (fair : s.Fair tableOf m) : s'.Books tableOf := by
  cases does with
  | @begin iso =>
    refine (books.push (t := Transaction.start s.nextId iso) fair rfl).congr rfl ?_ ?_ ?_ rfl
    · exact fun _ => rfl
    · exact fun _ => rfl
    · exact fun _ => rfl
  | adopt => exact books.push fair rfl
  | @mark h m =>
    refine books.congr (size_updateTxn _ _ _) ?_ ?_ (fun _ => rfl) rfl
    · exact proj_updateTxn s h _ (·.id) m.id_apply
    · exact proj_updateTxn s h _ (·.locks) m.locks_apply
  | register => exact books.congr (by simp) (by simp) (by simp) (by simp) (by simp)
  | unregister | retire =>
    exact books.congr rfl (fun _ => rfl) (fun _ => rfl) (fun _ => rfl) rfl
  | join admitted => exact (books.join admitted fair.1 fair.2).grantAndNotify _
  | swap admitted => exact (books.swap admitted fair.1 fair.2).grantAndNotify _
  | give held => exact (books.give held).grantAndNotify _
  | notify => exact books.grantAndNotify _
  | take asleep granted => exact books.take asleep granted
  | quit asleep => exact (books.quit asleep).grantAndNotify _
  | doze asleep waits => exact books.doze asleep waits
  | side alike =>
    refine books.congr (by rw [alike.txns]) ?_ ?_ (fun k => by rw [alike.queue]) alike.sleepers
    · exact fun h => by rw [txn, alike.txns, txn]
    · exact fun h => by rw [txn, alike.txns, txn]

end Engine

end TwoPhaseLocking

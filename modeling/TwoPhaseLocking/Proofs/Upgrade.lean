import TwoPhaseLocking.Proofs.Exclusion

/-! # One upgrade at a time

The mark on a queue names the transaction whose upgrade is under way there. The call that sets it
takes it back when it returns, with its lock or without, so the mark is there exactly as long as
the call sleeps. Since no other upgrade can begin meanwhile, the one that sleeps is next in turn.
-/

namespace TwoPhaseLocking

namespace Queue

variable {q : Queue} {x : Request} {id id' : TxnId}

theorem upgrading_clearUpgrading :
    (q.clearUpgrading id').upgrading = some id ↔ q.upgrading = some id ∧ id ≠ id' := by
  unfold clearUpgrading
  split <;> grind

theorem Once.count_eq_one (once : q.Once) (hx : x ∈ q.requests) :
    (q.requests.map (·.txn)).count x.txn = 1 :=
  List.count_eq_one_of_mem once (List.mem_map_of_mem hx)

/-- An exchange that waits is the first that does. -/
theorem Exchanging.first {old : Mode} (exchanging : q.Exchanging id old) (once : q.Once)
    (hx : x ∈ q.requests) (own : x.txn = id) (waits : x.granted = false) :
    q.requests.find? (!·.granted) = some x := by
  obtain ⟨-, xs, y, ys, split, own', ahead⟩ := exchanging
  have hy : y ∈ q.requests := by simp [split]
  obtain rfl : y = x := once.eq hy hx (own'.trans own.symm)
  have front : xs.find? (!·.granted) = none := by
    rw [List.find?_eq_none]
    intro z hz
    simp [(ahead z hz).1]
  simp [split, front, waits]

end Queue

namespace Engine

variable {tableOf : RowId → TableId} {config : Config} {s s' : Engine} {m : Move}
  {k : QueueKey} {id : TxnId}

/-- A call of the transaction sleeps on the queue that began as an upgrade. -/
def Upgrades (s : Engine) (k : QueueKey) (id : TxnId) : Prop :=
  ∃ w ∈ s.sleepers, w.resource.key = k ∧ (s.txn w.handle).id = id ∧ w.upgradeOf.isSome = true

instance : Decidable (s.Upgrades k id) :=
  inferInstanceAs (Decidable (∃ w ∈ s.sleepers,
    w.resource.key = k ∧ (s.txn w.handle).id = id ∧ w.upgradeOf.isSome = true))

/-- Every mark is that of a call asleep. -/
def Marked (s : Engine) : Prop := ∀ k id, (s.queue k).upgrading = some id → s.Upgrades k id

theorem marked_fresh (config : Config) : (fresh config).Marked := by
  simp [Marked, fresh, queue]

@[simp]
theorem upgrading_grantAndNotify (s : Engine) (k k' : QueueKey) :
    ((s.grantAndNotify k').queue k).upgrading = (s.queue k).upgrading := by
  rw [queue_grantAndNotify]
  split
  · simp_all
  · rfl

theorem upgrading_updateQueue {f : Queue → Queue} (same : ∀ q, (f q).upgrading = q.upgrading)
    (s : Engine) (k k' : QueueKey) :
    ((s.updateQueue k' f).queue k).upgrading = (s.queue k).upgrading := by
  rw [queue_updateQueue]
  split
  · simp_all
  · rfl

/-- A mark on a queue was there before, and no call that ends has taken it back, or it is that of
an upgrade that has just begun. -/
theorem Does.upgrading (does : s.Does m s') (marked : (s'.queue k).upgrading = some id) :
    ((s.queue k).upgrading = some id ∧
      ∀ w, m = .take w ∨ m = .quit w → w.resource.key = k → (s.txn w.handle).id ≠ id) ∨
    ∃ c old, m = .swap c old ∧ c.resource.key = k ∧ (s.txn c.handle).id = id := by
  -- a call that ends takes back its own mark and no other
  have cleared {s₁ : Engine} {w : Sleeper} (same : s₁.queue = s.queue)
      (marked : ((s₁.updateQueue w.resource.key
        (·.clearUpgrading (s.txn w.handle).id)).queue k).upgrading = some id) :
      (s.queue k).upgrading = some id ∧ (w.resource.key = k → (s.txn w.handle).id ≠ id) := by
    rw [queue_updateQueue, same] at marked
    split at marked
    · rename_i here
      rw [Queue.upgrading_clearUpgrading, here] at marked
      exact ⟨marked.1, fun _ => marked.2.symm⟩
    · rename_i other
      exact ⟨marked, fun here => absurd here other⟩
  cases does with
  | begin | adopt | mark | unregister | retire | doze => exact .inl ⟨marked, by simp⟩
  | register => exact .inl ⟨by simpa using marked, by simp⟩
  | side alike => exact .inl ⟨by rwa [alike.queue] at marked, by simp⟩
  | notify => exact .inl ⟨by simpa using marked, by simp⟩
  | @join c =>
    rw [upgrading_grantAndNotify, queue_addSleeper, pushRequest,
      upgrading_updateQueue (by simp)] at marked
    exact .inl ⟨marked, by simp⟩
  | give =>
    rw [upgrading_grantAndNotify, dropLock, queue_updateTxn,
      upgrading_updateQueue (by simp)] at marked
    exact .inl ⟨marked, by simp⟩
  | @swap c old =>
    rw [upgrading_grantAndNotify, queue_addSleeper, queue_swapRequest] at marked
    by_cases here : c.resource.key = k
    · rw [if_pos here] at marked
      exact .inr ⟨c, old, rfl, here, Option.some.inj marked⟩
    · rw [if_neg here] at marked
      exact .inl ⟨marked, by simp⟩
  | @take w xs ys =>
    rw [queue_updateTxn] at marked
    obtain ⟨before, other⟩ := cleared rfl marked
    exact .inl ⟨before, by simpa using other⟩
  | @quit w xs ys =>
    rw [upgrading_grantAndNotify, upgrading_updateQueue (by simp)] at marked
    obtain ⟨before, other⟩ := cleared rfl marked
    exact .inl ⟨before, by simpa using other⟩

/-- Whoever sleeps on keeps his mark, and nobody else sets one. -/
theorem Marked.move (marked : s.Marked) (books : s.Books tableOf) (does : s.Does m s') :
    s'.Marked := by
  intro k id there
  rcases does.upgrading there with ⟨before, others⟩ | ⟨c, old, rfl, here, own⟩
  · obtain ⟨w, asleep, on, own, upgrade⟩ := marked k id before
    rcases does.asleep asleep with ⟨w', asleep', same⟩ | took | quit
    · obtain ⟨-, handle, -, resource, upgradeOf⟩ := Sleeper.eq_of_hushed same
      refine ⟨w', asleep', by rw [resource, on], ?_, by rw [upgradeOf, upgrade]⟩
      rw [handle, does.id_eq (books.known w asleep), own]
    · exact absurd own (others w (.inl took) on)
    · exact absurd own (others w (.inr quit) on)
  · cases does with
    | swap admitted free has =>
      have mine := Does.id_eq (.swap admitted free has) admitted.known
      have new : c.sleeper (some old) ∈ ((s.swapRequest c old).addSleeper
        (c.sleeper (some old))).sleepers := by simp [addSleeper]
      refine ⟨_, mem_sleepers_grantAndNotify.2 ⟨_, new, rfl⟩, ?_⟩
      split
      · exact ⟨here, mine.trans own, rfl⟩
      · exact ⟨here, mine.trans own, rfl⟩

theorem Reachable.marked (reach : Reachable config (fun s e => e.Fair tableOf s) s) :
    s.Marked := by
  refine (reach.keeps (P := fun s => s.Books tableOf ∧ s.Marked)
    ⟨books_fresh config, marked_fresh config⟩ ?_).2
  rintro s₀ e fair s m s' ⟨books, marked⟩ does causes
  exact ⟨books.move does (fair_of_causes fair causes), marked.move books does⟩

/-- In every state that fair clients can lead to, a queue is marked by a transaction exactly while
a call of it sleeps there that began as an upgrade, and no two such calls sleep on one queue. When
all calls have looked that have been told something, the transaction stands in the queue just
once, and is the first of those who wait. -/
theorem upgrade_exclusive (reach : Reachable config (fun s e => e.Fair tableOf s) s)
    (k : QueueKey) :
    (∀ id, (s.queue k).upgrading = some id ↔ s.Upgrades k id) ∧
    (∀ w ∈ s.sleepers, ∀ w' ∈ s.sleepers, w.resource.key = k → w'.resource.key = k →
      w.upgradeOf.isSome = true → w'.upgradeOf.isSome = true → w = w') ∧
    (s.isQuiet = true → ∀ id, (s.queue k).upgrading = some id →
      ((s.queue k).requests.map (·.txn)).count id = 1 ∧
      ∃ x, (s.queue k).requests.find? (!·.granted) = some x ∧ x.txn = id) := by
  obtain ⟨books, -, exchanges⟩ := reach.exchanges
  have marked := reach.marked
  have mark (w : Sleeper) (asleep : w ∈ s.sleepers) (on : w.resource.key = k)
      (upgrade : w.upgradeOf.isSome = true) :
      (s.queue k).upgrading = some (s.txn w.handle).id := by
    obtain ⟨old, gave⟩ := Option.isSome_iff_exists.1 upgrade
    rw [← on]
    exact (exchanges w asleep old gave).marked
  refine ⟨fun id => ⟨marked k id, ?_⟩, ?_, ?_⟩
  · rintro ⟨w, asleep, on, rfl, upgrade⟩
    exact mark w asleep on upgrade
  · intro w asleep w' asleep' on on' upgrade upgrade'
    have same : (s.txn w.handle).id = (s.txn w'.handle).id := by
      have first := mark w asleep on upgrade
      rw [mark w' asleep' on' upgrade'] at first
      exact (Option.some.inj first).symm
    exact List.inj_on_of_nodup_map books.calls asleep asleep'
      (books.ids _ _ (books.known w asleep) (books.known w' asleep') same)
  · intro quiet id there
    obtain ⟨w, asleep, rfl, rfl, upgrade⟩ := marked k id there
    obtain ⟨old, gave⟩ := Option.isSome_iff_exists.1 upgrade
    obtain ⟨x, hx, isFor, waits⟩ := books.waits asleep (untold_of_isQuiet quiet asleep)
    have once := books.once w.resource.key
    refine ⟨?_, x, (exchanges w asleep old gave).first once hx isFor.txn waits, isFor.txn⟩
    rw [← isFor.txn]
    exact once.count_eq_one hx

/-- For instance while one of two writers of rows waits to write the whole table, and somebody
waits behind him who came before. -/
theorem upgrade_exclusive_before_reader :
    let s := (fresh {}).afterAll .ascending
      [.op (.begin .repeatableRead), .op (.begin .repeatableRead), .op (.begin .repeatableRead),
        .op (.lock ⟨3, 0, .intentionExclusive, .table 5⟩),
        .op (.lock ⟨4, 1, .intentionExclusive, .table 5⟩), .op (.lock ⟨5, 2, .shared, .table 5⟩),
        .op (.lock ⟨6, 1, .exclusive, .table 5⟩), .wake 5]
    s.isQuiet = true ∧ s.callers = [2, 1] ∧ (s.queue (.table 5)).upgrading = some 1 ∧
      s.Upgrades (.table 5) 1 ∧
      ∃ x, (s.queue (.table 5)).requests.find? (!·.granted) = some x ∧ x.txn = 1 := by
  intro s
  have reach : Reachable {} (fun s e => e.Fair (fun _ => 5) s) s :=
    Reachable.afterAll Walk.complete_ascending .fresh (by decide +kernel)
  obtain ⟨mark, -, first⟩ := upgrade_exclusive reach (.table 5)
  have quiet : s.isQuiet = true := by decide +kernel
  have marked : (s.queue (.table 5)).upgrading = some 1 := by decide +kernel
  exact ⟨quiet, by decide +kernel, marked, (mark 1).1 marked, (first quiet 1 marked).2⟩

end Engine

end TwoPhaseLocking

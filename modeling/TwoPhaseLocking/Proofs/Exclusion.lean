import TwoPhaseLocking.Proofs.Asleep

/-! # Table locks exclude the row locks of others

Table queues and row queues never look at each other. Who locks a row has a lock on its table
that permits it, or is exchanging one, and whatever others are granted on the table fits that
lock, or the one that was given up for the exchange.
-/

namespace TwoPhaseLocking

/-- A table lock beside one that permits row locks in mode `m`. -/
theorem Policy.excludes_of_covers {held other m : Mode} (covered : covers held m = true)
    (both : held.compatible other = true) :
    other ≠ .exclusive ∧
      (other = .shared ∨ other = .sharedIntentionExclusive → m ≠ .exclusive) := by
  cases held <;> cases other <;> cases m <;> simp_all [covers, Mode.compatible]

namespace Engine

variable {tableOf : RowId → TableId} {config : Config} {s s' : Engine} {a : Move}
  {h h' : Handle} {t : TableId} {row : RowId} {m : Mode} {past : List (Engine × Event)}

/-- Whoever sleeps to exchange a lock has kept its place. -/
def Exchanges (s : Engine) : Prop := ∀ w ∈ s.sleepers, ∀ old, w.upgradeOf = some old →
  (s.queue w.resource.key).Exchanging (s.txn w.handle).id old

theorem exchanges_fresh (config : Config) : (fresh config).Exchanges := by
  simp [Exchanges, fresh]

/-- An exchange begins in the place of the lock. -/
theorem exchanging_swap {c : LockCall} {old : Mode} (books : s.Books tableOf) (tidy : s.Tidy)
    (admitted : s.Admits c (some old)) :
    ((((s.swapRequest c old).addSleeper (c.sleeper (some old))).grantAndNotify
      c.resource.key).queue c.resource.key).Exchanging (s.txn c.handle).id old := by
  obtain ⟨x, hx, ⟨txn, -, rfl⟩, granted⟩ :=
    books.recorded c.handle c.resource old (LockSet.mem_of_mode? admitted.holds)
  have begun := (tidy c.resource.key).toOrderly.exchanging (books.once c.resource.key)
    (r := c.request (s.txn c.handle).id) hx granted
  rw [txn] at begun
  rw [queue_grantAndNotify, if_pos rfl, queue_addSleeper, queue_swapRequest, if_pos rfl]
  exact begun.turn .grant

theorem Exchanges.move (exchanges : s.Exchanges) (books : s.Books tableOf) (tidy : s.Tidy)
    (does : s.Does a s') (fair : s.Fair tableOf a) : s'.Exchanges := by
  intro w' asleep' old upgrade
  rcases does.sleeper books fair asleep' with ⟨w, asleep, same, -, turns⟩ | call
  · obtain ⟨-, handle, -, resource, upgradeOf⟩ := Sleeper.eq_of_hushed same
    rw [handle, resource, does.id_eq (books.known w asleep)]
    exact turns.keeps (fun _ _ => Queue.Exchanging.turn)
      (exchanges w asleep old (upgradeOf.symm.trans upgrade))
  · cases does with
    | @swap c old' admitted free there =>
      obtain ⟨-, handle, -, resource, upgradeOf⟩ := LockCall.eq_of_sleeper (Option.some.inj call)
      obtain rfl : old' = old := Option.some.inj (upgradeOf.trans upgrade)
      rw [← handle, ← resource, Does.id_eq (.swap admitted free there) admitted.known]
      exact exchanging_swap books tidy admitted
    | @join c =>
      obtain ⟨-, -, -, -, upgradeOf⟩ := LockCall.eq_of_sleeper (Option.some.inj call)
      rw [← upgradeOf] at upgrade
      cases upgrade
    | _ => cases call

theorem Reachable.exchanges (reach : Reachable config (fun s e => e.Fair tableOf s) s) :
    s.Books tableOf ∧ s.Tidy ∧ s.Exchanges := by
  refine reach.keeps (P := fun s => s.Books tableOf ∧ s.Tidy ∧ s.Exchanges)
    ⟨books_fresh config, tidy_fresh config, exchanges_fresh config⟩ ?_
  rintro s₀ e fair s m s' ⟨books, tidy, exchanges⟩ does causes
  have fair' := fair_of_causes fair causes
  exact ⟨books.move does fair', tidy.move does, exchanges.move books tidy does fair'⟩

/-- When no state is set no call goes astray, and a row lock that has lost its cover is one of an
aborted transaction. -/
theorem Run.aborted_of_orphaned (run : Run config (fun _ e => e.SetsNoState) past s) :
    ¬ Astray h t row m past ∧ (Orphaned h t row m past → (s.txn h).isAborted = true) := by
  induction run with
  | fresh => exact ⟨id, False.elim⟩
  | @next past s w e _ _ set ih =>
    have stray : ¬ Astray h t row m ((s, e) :: past) := by
      rintro ⟨-, ⟨state, rfl, -⟩ | before⟩
      · exact set
      · exact ih.1 before
    refine ⟨stray, ?_⟩
    rintro (gone | ⟨-, ⟨old, ⟨n, v, -, -, -, -, -, aborted⟩, -⟩ | before⟩)
    · exact absurd gone stray
    · exact isAborted_after w set.setsAborted aborted
    · exact isAborted_after w set.setsAborted (ih.2 before)

/-- Whoever is granted something on a table beside a transaction that locks a row of it could be
granted it beside a lock that permits the row lock. -/
theorem exists_cover (books : s.Books tableOf) (tidy : s.Tidy) (exchanges : s.Exchanges)
    (upgrades : ∀ w ∈ s.sleepers, ∀ old, w.upgradeOf = some old → old.canUpgradeTo w.mode = true)
    (cover : s.HasCover h' t m ∨ s.AwaitsCover h' t m) (ne : h ≠ h') {other : Mode}
    (there : (⟨.table t, other⟩ : Lock) ∈ (s.txn h).locks) :
    ∃ held, Policy.covers held m = true ∧ held.compatible other = true := by
  obtain ⟨y, hy, isFor, granted⟩ := books.recorded h (.table t) other there
  have lt := lt_size_of_mem_locks there
  rcases cover with ⟨held, there', covers⟩ | ⟨w, asleep, rfl, on, old, upgrade, covers⟩
  · obtain ⟨x, hx, isFor', granted'⟩ := books.recorded h' (.table t) held there'
    have id := books.id_ne (lt_size_of_mem_locks there') lt ne
    refine ⟨held, covers, ?_⟩
    rw [← isFor.mode, ← isFor'.mode]
    refine (tidy _).toOrderly.compatible_of_mem hx hy ?_ granted' granted
    rintro rfl
    exact id (isFor.txn.symm.trans isFor'.txn)
  · -- the lock that was given up is in no queue any more, but its place is kept
    have id := books.id_ne (books.known w asleep) lt ne
    have exchanging := exchanges w asleep old upgrade
    obtain ⟨x, hx, isFor', -⟩ := (books.awaits w asleep).asked
    rw [on] at exchanging hx
    refine ⟨old, covers, ?_⟩
    rw [← isFor.mode]
    refine exchanging.compatible (tidy _).toOrderly (fun x' hx' own => ?_) hy
      (by rwa [isFor.txn]) granted
    rw [books.unique hx' hx (own.trans isFor'.txn.symm), isFor'.mode]
    exact upgrades w asleep old upgrade

/-- In every state that clients can lead to who do nothing but abort or let go of a transaction
while a call of it sleeps, and who set no state: beside a lock for writing on a table nobody else
who is not aborted has a lock on a row of it, and beside one for reading nobody has one for
writing. That includes whoever waits to exchange a lock on the table. -/
theorem table_lock_excludes_rows
    (reach : Reachable config
      (fun s e => e.Fair tableOf s ∧ e.Undisturbed s ∧ e.SetsNoState) s)
    (ne : h ≠ h') (live : (s.txn h').isAborted = false) :
    ((⟨.table t, .exclusive⟩ : Lock) ∈ (s.txn h).locks →
      ∀ row m, (⟨.row t row, m⟩ : Lock) ∉ (s.txn h').locks) ∧
    ((⟨.table t, .shared⟩ : Lock) ∈ (s.txn h).locks ∨
        (⟨.table t, .sharedIntentionExclusive⟩ : Lock) ∈ (s.txn h).locks →
      ∀ row, (⟨.row t row, .exclusive⟩ : Lock) ∉ (s.txn h').locks) := by
  obtain ⟨past, run⟩ := reach.exists_run
  obtain ⟨-, coverage⟩ := (run.mono fun _ _ allowed => ⟨allowed.1, allowed.2.1.keepsLocks⟩).coverage
  have orphans : Run config (fun _ e => e.SetsNoState) past s :=
    run.mono fun _ _ allowed => allowed.2.2
  obtain ⟨books, tidy, exchanges⟩ := (reach.mono fun _ _ allowed => allowed.1).exchanges
  have excluded {row : RowId} {m other : Mode}
      (locked : (⟨.row t row, m⟩ : Lock) ∈ (s.txn h').locks)
      (there : (⟨.table t, other⟩ : Lock) ∈ (s.txn h).locks) :
      other ≠ .exclusive ∧
        (other = .shared ∨ other = .sharedIntentionExclusive → m ≠ .exclusive) := by
    have cover : s.HasCover h' t m ∨ s.AwaitsCover h' t m := by
      rcases coverage.rows h' t row m locked with cover | awaits | lost
      · exact .inl cover
      · exact .inr awaits
      · rw [orphans.aborted_of_orphaned.2 lost] at live
        cases live
    obtain ⟨held, covers, both⟩ :=
      exists_cover books tidy exchanges coverage.upgrades cover ne there
    exact Policy.excludes_of_covers covers both
  constructor
  · exact fun there row m locked => (excluded locked there).1 rfl
  · rintro (there | there) row locked
    · exact (excluded locked there).2 (.inl rfl) rfl
    · exact (excluded locked there).2 (.inr rfl) rfl

/-- For instance beside a reader of the table while another, who has read a row under an intention
lock, waits to turn that into one for writing. -/
theorem table_lock_excludes_rows_during_upgrade :
    let s := (fresh {}).afterAll .ascending
      [.op (.begin .repeatableRead), .op (.begin .repeatableRead),
        .op (.lock ⟨2, 1, .intentionShared, .table 1⟩),
        .op (.lock ⟨3, 1, .shared, .row 1 ⟨0, 0⟩⟩), .op (.lock ⟨4, 0, .shared, .table 1⟩),
        .op (.lock ⟨5, 1, .intentionExclusive, .table 1⟩)]
    s.isQuiet = true ∧ s.callers = [1] ∧ (s.txn 1).isAborted = false ∧
      (⟨.row 1 ⟨0, 0⟩, .shared⟩ : Lock) ∈ (s.txn 1).locks ∧
      (⟨.table 1, .shared⟩ : Lock) ∈ (s.txn 0).locks ∧
      ∀ row, (⟨.row 1 row, .exclusive⟩ : Lock) ∉ (s.txn 1).locks := by
  intro s
  have reach : Reachable {}
      (fun s e => e.Fair (fun _ => 1) s ∧ e.Undisturbed s ∧ e.SetsNoState) s :=
    Reachable.afterAll Walk.complete_ascending .fresh (by decide +kernel)
  have live : (s.txn 1).isAborted = false := by decide +kernel
  have held : (⟨.table 1, .shared⟩ : Lock) ∈ (s.txn 0).locks := by decide +kernel
  exact ⟨by decide +kernel, by decide +kernel, live, by decide +kernel, held,
    (table_lock_excludes_rows reach (show (0 : Handle) ≠ 1 by decide) live).2 (.inl held)⟩

end Engine

end TwoPhaseLocking

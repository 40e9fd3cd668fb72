import TwoPhaseLocking.Proofs.Bookkeeping
import TwoPhaseLocking.Proofs.Frame

/-! # Row locks are covered by table locks

A row is locked under a lock on its table that permits it. From then on the table lock can
only be exchanged for a stronger one, and while the exchange waits the table is not locked at
all. An abort that ends the exchange leaves the rows without cover for good, and one that is
taken back before a call for a row has seen it may have given the cover of that row back. Apart
from these no row lock is ever without.
-/

namespace TwoPhaseLocking

/-- A stronger table lock permits at least the same row locks. -/
theorem Policy.covers_of_canUpgradeTo {old new m : Mode} (stronger : old.canUpgradeTo new = true)
    (covered : covers old m = true) : covers new m = true := by
  cases old <;> cases new <;> cases m <;> simp_all [Mode.canUpgradeTo, covers]

theorem Policy.tableLockForRow_some {held m : Mode} :
    tableLockForRow (some held) m = none ↔ covers held m = true := by
  simp [tableLockForRow]

/-- The sleeping call as it would be had it not been notified. -/
def Sleeper.hushed (w : Sleeper) : Sleeper := { w with notified := false }

theorem Sleeper.eq_of_hushed {v w : Sleeper} (same : v.hushed = w.hushed) :
    v.call = w.call ∧ v.handle = w.handle ∧ v.mode = w.mode ∧ v.resource = w.resource ∧
      v.upgradeOf = w.upgradeOf := by
  simpa [hushed] using same

namespace Engine

variable {tableOf : RowId → TableId} {config : Config} {s s' s₀ : Engine} {a : Move}
  {h : Handle} {t : TableId} {row : RowId} {m : Mode}

/-- The transaction has a lock on the table that permits rows to be locked in mode `m`. -/
def HasCover (s : Engine) (h : Handle) (t : TableId) (m : Mode) : Prop :=
  ∃ held, (⟨.table t, held⟩ : Lock) ∈ (s.txn h).locks ∧ Policy.covers held m = true

/-- A call of the transaction sleeps to exchange such a lock for a stronger one. -/
def AwaitsCover (s : Engine) (h : Handle) (t : TableId) (m : Mode) : Prop :=
  ∃ w ∈ s.sleepers, w.handle = h ∧ w.resource = .table t ∧
    ∃ old, w.upgradeOf = some old ∧ Policy.covers old m = true

/-- In this event a sleeping call looks at its queue, finds its transaction aborted and gives up
to exchange its lock in mode `old` on the table. -/
def GivesUp (s : Engine) (e : Event) (h : Handle) (t : TableId) (old : Mode) : Prop :=
  ∃ n w, e = .wake n ∧ s.sleepers.find? (fun w => w.call == n && w.notified) = some w ∧
    w.handle = h ∧ w.resource = .table t ∧ w.upgradeOf = some old ∧ (s.txn h).isAborted = true

/-- In this event the abort of the transaction is taken back. -/
def Revives (s : Engine) (e : Event) (h : Handle) : Prop :=
  ∃ state, e = .op (.setState h state) ∧ state ≠ .aborted ∧ (s.txn h).isAborted = true

def AwaitsRow (s : Engine) (h : Handle) (t : TableId) (row : RowId) (m : Mode) : Prop :=
  ∃ w ∈ s.sleepers, w.handle = h ∧ w.resource = .row t row ∧ w.mode = m

/-- A call for the row has slept ever since the abort of its transaction was taken back. -/
def Astray (h : Handle) (t : TableId) (row : RowId) (m : Mode) : List (Engine × Event) → Prop
  | [] => False
  | (s, e) :: past => s.AwaitsRow h t row m ∧ (s.Revives e h ∨ Astray h t row m past)

/-- A row lock has been on record ever since it was taken by a call that had gone astray, or ever
since an abort ended the exchange of its table's lock. -/
def Orphaned (h : Handle) (t : TableId) (row : RowId) (m : Mode) : List (Engine × Event) → Prop
  | [] => False
  | (s, e) :: past => Astray h t row m ((s, e) :: past) ∨
      (⟨.row t row, m⟩ : Lock) ∈ (s.txn h).locks ∧
        ((∃ old, s.GivesUp e h t old ∧ Policy.covers old m = true) ∨ Orphaned h t row m past)

/-- Row locks have cover, or it is being exchanged, but for those that are `lost` or were asked
for by calls gone `astray`. -/
structure Coverage (lost astray : Handle → TableId → RowId → Mode → Prop) (s : Engine) :
    Prop where
  rows : ∀ h t row m, (⟨.row t row, m⟩ : Lock) ∈ (s.txn h).locks →
    s.HasCover h t m ∨ s.AwaitsCover h t m ∨ lost h t row m
  /-- A call for a row sleeps under cover, unless its transaction is aborted. -/
  calls : ∀ w ∈ s.sleepers, ∀ t row, w.resource = .row t row →
    (s.txn w.handle).isAborted = false → s.HasCover w.handle t w.mode ∨ astray w.handle t row w.mode
  upgrades : ∀ w ∈ s.sleepers, ∀ old, w.upgradeOf = some old → old.canUpgradeTo w.mode = true

variable {lost astray : Handle → TableId → RowId → Mode → Prop}

theorem coverage_fresh (config : Config) : (fresh config).Coverage lost astray where
  rows h t row m there := by
    have lt := lt_size_of_mem_locks there
    simp [fresh] at lt
  calls := by simp [fresh]
  upgrades := by simp [fresh]

theorem Admits.hasCover {c : LockCall} {held : Option Mode} (admitted : s.Admits c held)
    (on : c.resource = .row t row) : s.HasCover c.handle t c.mode := by
  have lawful := admitted.lawful
  simp only [Policy.request, on, Resource.isRow, ↓reduceIte, Option.or_eq_none_iff] at lawful
  have cover := lawful.1.2
  rw [Resource.tableId] at cover
  cases mode : (s.txn c.handle).locks.mode? (.table t) with
  | none =>
    rw [mode] at cover
    cases cover
  | some held =>
    rw [mode] at cover
    exact ⟨held, LockSet.mem_of_mode? mode, Policy.tableLockForRow_some.1 cover⟩

theorem Admits.canUpgradeTo {c : LockCall} {old : Mode} (admitted : s.Admits c (some old)) :
    old.canUpgradeTo c.mode = true := by
  have lawful := admitted.lawful
  simp only [Policy.request, Option.or_eq_none_iff, Option.bind_some, Policy.upgrade] at lawful
  by_contra weaker
  simp [weaker] at lawful

theorem HasCover.mono (cover : s.HasCover h t m)
    (locks : ∀ l, l ∈ (s.txn h).locks → l ∈ (s'.txn h).locks) : s'.HasCover h t m := by
  obtain ⟨held, there, covers⟩ := cover
  exact ⟨held, locks _ there, covers⟩

theorem AwaitsCover.mono (cover : s.AwaitsCover h t m) (sleepers : ∀ w ∈ s.sleepers,
    w ∈ s'.sleepers) : s'.AwaitsCover h t m := by
  obtain ⟨w, asleep, upgrade⟩ := cover
  exact ⟨w, sleepers w asleep, upgrade⟩

/-- Coverage is about locks on record, what calls sleep for and who is aborted. -/
theorem Coverage.congr (coverage : s.Coverage lost astray)
    (locks : ∀ h, (s'.txn h).locks = (s.txn h).locks)
    (sleepers : s'.sleepers.map Sleeper.hushed = s.sleepers.map Sleeper.hushed)
    (aborted : ∀ w ∈ s.sleepers, (s.txn w.handle).isAborted = true →
      (s'.txn w.handle).isAborted = true ∨
        ∀ t row, w.resource = .row t row → astray w.handle t row w.mode) :
    s'.Coverage lost astray := by
  have same {l l' : List Sleeper} (eq : l'.map Sleeper.hushed = l.map Sleeper.hushed) {w : Sleeper}
      (asleep : w ∈ l) : ∃ w' ∈ l', w'.handle = w.handle ∧ w'.resource = w.resource ∧
        w'.mode = w.mode ∧ w'.upgradeOf = w.upgradeOf := by
    have there : w.hushed ∈ l'.map Sleeper.hushed := eq ▸ List.mem_map_of_mem asleep
    obtain ⟨w', asleep', hushed⟩ := List.mem_map.1 there
    obtain ⟨-, handle, mode, resource, upgradeOf⟩ := Sleeper.eq_of_hushed hushed
    exact ⟨w', asleep', handle, resource, mode, upgradeOf⟩
  constructor
  case rows =>
    intro h t row m there
    rw [locks] at there
    rcases coverage.rows h t row m there with cover | ⟨w, asleep, whose, on, upgrade⟩ | gone
    · exact .inl (cover.mono fun l hl => by rwa [locks])
    · obtain ⟨w', asleep', handle, resource, -, old⟩ := same sleepers asleep
      exact .inr (.inl ⟨w', asleep', handle.trans whose, resource.trans on, old ▸ upgrade⟩)
    · exact .inr (.inr gone)
  case calls =>
    intro w' asleep' t row on live
    obtain ⟨w, asleep, handle, resource, mode, -⟩ := same sleepers.symm asleep'
    rw [← handle, ← mode]
    have kept {m : Mode} (cover : s.HasCover w.handle t m) : s'.HasCover w.handle t m :=
      cover.mono fun l hl => by rwa [locks]
    cases before : (s.txn w.handle).isAborted with
    | false =>
      exact (coverage.calls w asleep t row (resource.trans on) before).imp_left kept
    | true =>
      rcases aborted w asleep before with still | gone
      · rw [← handle, still] at live
        cases live
      · exact .inr (gone t row (resource.trans on))
  case upgrades =>
    intro w' asleep' old upgrade
    obtain ⟨w, asleep, -, -, mode, upgradeOf⟩ := same sleepers.symm asleep'
    rw [← mode]
    exact coverage.upgrades w asleep old (upgradeOf.trans upgrade)

theorem hushed_grantAndNotify (k : QueueKey) :
    (s.grantAndNotify k).sleepers.map Sleeper.hushed = s.sleepers.map Sleeper.hushed := by
  simp only [grantAndNotify, List.map_map]
  refine List.map_congr_left fun w _ => ?_
  simp only [Function.comp_apply]
  split <;> rfl

theorem Coverage.grantAndNotify (coverage : s.Coverage lost astray) (k : QueueKey) :
    (s.grantAndNotify k).Coverage lost astray :=
  coverage.congr (fun _ => rfl) (hushed_grantAndNotify k) fun _ _ aborted => .inl aborted

/-- A call for a new lock falls asleep, under cover if it is for a row. -/
theorem Coverage.join (coverage : s.Coverage lost astray) {c : LockCall} (admitted : s.Admits c none) :
    ((s.pushRequest c).addSleeper (c.sleeper none)).Coverage lost astray := by
  constructor
  case rows =>
    intro h t row m there
    exact (coverage.rows h t row m there).imp_right
      (Or.imp_left fun awaits => awaits.mono fun w => List.mem_append_left _)
  case calls =>
    intro w asleep t row on live
    rcases List.mem_append.1 asleep with asleep | mine
    · exact coverage.calls w asleep t row on live
    · rw [List.mem_singleton.1 mine] at on ⊢
      exact .inl (admitted.hasCover on)
  case upgrades =>
    intro w asleep old upgrade
    rcases List.mem_append.1 asleep with asleep | mine
    · exact coverage.upgrades w asleep old upgrade
    · rw [List.mem_singleton.1 mine] at upgrade
      cases upgrade

/-- The cover that a lock gave is kept by the call that exchanges it. -/
theorem Coverage.swap (coverage : s.Coverage lost astray) {c : LockCall} {old : Mode}
    (admitted : s.Admits c (some old)) (noCall : ¬ s.HasCall c.handle) :
    ((s.swapRequest c old).addSleeper (c.sleeper (some old))).Coverage lost astray := by
  have locks {h : Handle} {l : Lock} : l ∈ ((s.swapRequest c old).txn h).locks ↔
      l ∈ (s.txn h).locks ∧ (h = c.handle → l ≠ ⟨c.resource, old⟩) :=
    mem_locks_updateTxn_forget
  constructor
  case rows =>
    intro h t row m there
    rcases coverage.rows h t row m (locks.1 there).1 with ⟨held, cover, covers⟩ | awaits | gone
    · by_cases given : h = c.handle ∧ (⟨.table t, held⟩ : Lock) = ⟨c.resource, old⟩
      · obtain ⟨rfl, eq⟩ := given
        cases c
        cases eq
        exact .inr (.inl ⟨_, List.mem_append_right _ (List.mem_singleton_self _), rfl, rfl, _,
          rfl, covers⟩)
      · exact .inl ⟨held, locks.2 ⟨cover, fun mine eq => given ⟨mine, eq⟩⟩, covers⟩
    · exact .inr (.inl (awaits.mono fun w => List.mem_append_left _))
    · exact .inr (.inr gone)
  case calls =>
    intro w asleep t row on live
    rcases List.mem_append.1 asleep with asleep | mine
    · have other : w.handle ≠ c.handle := fun whose => noCall ⟨w, asleep, whose⟩
      have alive : (s.txn w.handle).isAborted = false :=
        (isAborted_updateTxn_forget ..).symm.trans live
      refine (coverage.calls w asleep t row on alive).imp_left fun cover => cover.mono fun l hl => ?_
      exact locks.2 ⟨hl, fun whose => absurd whose other⟩
    · rw [List.mem_singleton.1 mine] at on ⊢
      obtain ⟨held, cover, covers⟩ := admitted.hasCover on
      refine .inl ⟨held, locks.2 ⟨cover, fun _ eq => ?_⟩, covers⟩
      rw [show c.resource = .row t row from on] at eq
      cases eq
  case upgrades =>
    intro w asleep held upgrade
    rcases List.mem_append.1 asleep with asleep | mine
    · exact coverage.upgrades w asleep held upgrade
    · rw [List.mem_singleton.1 mine] at upgrade ⊢
      cases upgrade
      exact admitted.canUpgradeTo

/-- A table lock is given back when no row is locked under it, and no row is being waited for. -/
theorem Coverage.give (coverage : s.Coverage lost astray) {r : Resource} {held : Mode}
    (rowsFirst : r.isTable = true → (s.txn h).locks.hasRowsOn r.tableId = false)
    (quiet : ¬ s.HasCall h ∨ (s.txn h).isAborted = true) : (s.dropLock h r held).Coverage lost astray := by
  have locks {h' : Handle} {l : Lock} : l ∈ ((s.dropLock h r held).txn h').locks ↔
      l ∈ (s.txn h').locks ∧ (h' = h → l ≠ ⟨r, held⟩) :=
    mem_locks_updateTxn_forget
  constructor
  case rows =>
    intro h' t row m there
    have before := (locks.1 there).1
    rcases coverage.rows h' t row m before with ⟨mode, cover, covers⟩ | awaits | gone
    · refine .inl ⟨mode, locks.2 ⟨cover, ?_⟩, covers⟩
      rintro rfl eq
      cases eq
      have some : (s.txn h').locks.hasRowsOn t = true := LockSet.hasRowsOn_iff.2 ⟨row, m, before⟩
      exact nomatch some.symm.trans (rowsFirst rfl)
    · exact .inr (.inl awaits)
    · exact .inr (.inr gone)
  case calls =>
    intro w asleep t row on live
    have alive : (s.txn w.handle).isAborted = false :=
      (isAborted_updateTxn_forget ..).symm.trans live
    refine (coverage.calls w asleep t row on alive).imp_left fun cover => cover.mono fun l hl => ?_
    refine locks.2 ⟨hl, ?_⟩
    rintro rfl
    rcases quiet with noCall | aborted
    · exact absurd ⟨w, asleep, rfl⟩ noCall
    · rw [aborted] at alive
      cases alive
  case upgrades => exact coverage.upgrades

/-- What a call takes that was asleep: a row under cover if it has not gone astray, or a table lock
that covers no less than the one it gave up. -/
theorem Coverage.take (coverage : s.Coverage lost astray) (books : s.Books tableOf)
    (loses : ∀ h t row m, astray h t row m → lost h t row m) {w : Sleeper} {xs ys : List Sleeper}
    (asleep : s.sleepers = xs ++ w :: ys)
    (live : (s.txn w.handle).isAborted = false) :
    (({ s with sleepers := xs ++ ys }.updateQueue w.resource.key
      (·.clearUpgrading (s.txn w.handle).id)).updateTxn w.handle
        (·.record w.resource w.mode)).Coverage lost astray := by
  have here := mem_split asleep
  have locks {h : Handle} {l : Lock} :
      l ∈ ((({ s with sleepers := xs ++ ys }.updateQueue w.resource.key
        (·.clearUpgrading (s.txn w.handle).id)).updateTxn w.handle
          (·.record w.resource w.mode)).txn h).locks ↔
        h = w.handle ∧ l = ⟨w.resource, w.mode⟩ ∨ l ∈ (s.txn h).locks :=
    mem_locks_updateTxn_record (books.known w here) (books.awaits w here).plain
  have rest := rest_sublist asleep
  constructor
  case rows =>
    intro h t row m there
    rcases locks.1 there with ⟨rfl, eq⟩ | there
    · have on : w.resource = .row t row := (congrArg Lock.resource eq).symm
      have mode : m = w.mode := congrArg Lock.mode eq
      rw [mode]
      rcases coverage.calls w here t row on live with cover | gone
      · exact .inl (cover.mono fun l hl => locks.2 (.inr hl))
      · exact .inr (.inr (loses _ _ _ _ gone))
    · rcases coverage.rows h t row m there with cover | ⟨v, awake, whose, on, old, upgrade, covers⟩ | gone
      · exact .inl (cover.mono fun l hl => locks.2 (.inr hl))
      · by_cases mine : v = w
        · subst mine
          have stronger := coverage.upgrades v here old upgrade
          refine .inl ⟨v.mode, locks.2 (.inl ⟨whose.symm, by rw [on]⟩), ?_⟩
          exact Policy.covers_of_canUpgradeTo stronger covers
        · have still := mem_rest_of_ne asleep awake mine
          exact .inr (.inl ⟨v, still, whose, on, old, upgrade, covers⟩)
      · exact .inr (.inr gone)
  case calls =>
    intro v hv t row on alive
    have alive' : (s.txn v.handle).isAborted = false :=
      (isAborted_updateTxn_record ..).symm.trans alive
    exact (coverage.calls v (rest.subset hv) t row on alive').imp_left fun cover =>
      cover.mono fun l hl => locks.2 (.inr hl)
  case upgrades => exact fun v hv => coverage.upgrades v (rest.subset hv)

/-- A call that gives up takes the cover with it that it was to exchange. -/
theorem Coverage.quit (coverage : s.Coverage lost astray) {w : Sleeper} {xs ys : List Sleeper}
    (asleep : s.sleepers = xs ++ w :: ys)
    (loses : ∀ t row m old, w.resource = .table t → w.upgradeOf = some old →
      Policy.covers old m = true → (⟨.row t row, m⟩ : Lock) ∈ (s.txn w.handle).locks →
      lost w.handle t row m) :
    (({ s with sleepers := xs ++ ys }.updateQueue w.resource.key
      (·.clearUpgrading (s.txn w.handle).id)).updateQueue w.resource.key
        (·.remove (s.txn w.handle).id)).Coverage lost astray := by
  have rest := rest_sublist asleep
  constructor
  case rows =>
    intro h t row m there
    rcases coverage.rows h t row m there with cover | ⟨v, awake, whose, on, old, upgrade, covers⟩ | gone
    · exact .inl cover
    · by_cases mine : v = w
      · subst mine
        rw [← whose] at there
        exact .inr (.inr (whose ▸ loses t row m old on upgrade covers there))
      · have still := mem_rest_of_ne asleep awake mine
        exact .inr (.inl ⟨v, still, whose, on, old, upgrade, covers⟩)
    · exact .inr (.inr gone)
  case calls => exact fun v hv => coverage.calls v (rest.subset hv)
  case upgrades => exact fun v hv => coverage.upgrades v (rest.subset hv)

/-- What coverage relies on: no lock is given back while a call sleeps, but after an abort, a call
goes astray when an abort is taken back meanwhile, and one that gives up loses what it was to
exchange. -/
def KeepsCover (lost astray : Handle → TableId → RowId → Mode → Prop) (s : Engine) : Move → Prop
  | .join c | .swap c _ => ¬ s.HasCall c.handle
  | .give h .. => ¬ s.HasCall h ∨ (s.txn h).isAborted = true
  | .mark h (.setState state) => (s.txn h).isAborted = true →
      state = .aborted ∨ ∀ t row m, s.AwaitsRow h t row m → astray h t row m
  | .quit w => ∀ t row m old, (s.txn w.handle).isAborted = true → w.resource = .table t →
      w.upgradeOf = some old → Policy.covers old m = true →
      (⟨.row t row, m⟩ : Lock) ∈ (s.txn w.handle).locks → lost w.handle t row m
  | _ => True

/-- No mark but setting the state takes back an abort. -/
theorem Mark.revives_or {t : Transaction} (k : Mark) (aborted : t.isAborted = true) :
    (k.apply t).isAborted = true ∨ ∃ state, k = .setState state ∧ state ≠ .aborted := by
  cases k with
  | abort reason => exact .inl (isAborted_abort_of_isAborted aborted reason)
  | setState state =>
    by_cases still : state = .aborted
    · left
      simp [Mark.apply, still]
    · exact .inr ⟨state, rfl, still⟩
  | shrink | commit | letGo =>
    left
    rw [Transaction.isAborted_iff] at aborted
    simp [Mark.apply, Transaction.beginShrinking, Transaction.commit, aborted]

/-- A new transaction has no row locks. -/
theorem Coverage.push (coverage : s.Coverage lost astray) (books : s.Books tableOf) {t : Transaction}
    (empty : t.locks = ∅) : Coverage lost astray { s with txns := s.txns.push t } := by
  refine coverage.congr (fun h => ?_) rfl fun w asleep aborted => ?_
  · rw [txn_push]
    split
    · rename_i new
      rw [new, txn_of_size_le s _ (Nat.le_refl _), empty]
      rfl
    · rfl
  · rw [txn_push, if_neg (Nat.ne_of_lt (books.known w asleep))]
    exact .inl aborted

theorem Coverage.move (coverage : s.Coverage lost astray) (books : s.Books tableOf)
    (loses : ∀ h t row m, astray h t row m → lost h t row m) (does : s.Does a s')
    (keeps : s.KeepsCover lost astray a) : s'.Coverage lost astray := by
  cases does with
  | @begin iso =>
    have added := coverage.push books (t := Transaction.start s.nextId iso) rfl
    exact added.congr (fun _ => rfl) rfl fun _ _ aborted => .inl aborted
  | adopt => exact coverage.push books rfl
  | @mark h k =>
    refine coverage.congr (proj_updateTxn s h _ (·.locks) k.locks_apply) rfl fun w asleep aborted => ?_
    rw [txn_updateTxn]
    split
    · rename_i mine
      rw [← mine.1] at aborted
      rcases Mark.revives_or k aborted with still | ⟨state, rfl, revived⟩
      · exact .inl still
      · refine .inr fun t row on => ?_
        have gone := (keeps aborted).resolve_left revived
        exact mine.1 ▸ gone t row w.mode ⟨w, asleep, mine.1.symm, on, rfl⟩
    · exact .inl aborted
  | register =>
    exact coverage.congr (by simp) (by simp) fun w _ aborted => .inl (by rwa [txn_register])
  | unregister | retire =>
    exact coverage.congr (fun _ => rfl) rfl fun _ _ aborted => .inl aborted
  | join admitted => exact (coverage.join admitted).grantAndNotify _
  | swap admitted => exact (coverage.swap admitted keeps).grantAndNotify _
  | give held rowsFirst => exact (coverage.give rowsFirst keeps).grantAndNotify _
  | notify => exact coverage.grantAndNotify _
  | take asleep granted live => exact coverage.take books loses asleep live
  | quit asleep aborted =>
    refine (coverage.quit asleep fun t row m old => ?_).grantAndNotify _
    exact keeps t row m old aborted
  | @doze w xs ys asleep =>
    refine coverage.congr (fun _ => rfl) ?_ fun _ _ aborted => .inl aborted
    rw [asleep, List.map_append, List.map_append, List.map_cons, List.map_cons]
    rfl
  | side alike =>
    have txn (h : Handle) : s'.txn h = s.txn h := by
      rw [Engine.txn, alike.txns, Engine.txn]
    exact coverage.congr (fun h => by rw [txn]) (by rw [alike.sleepers]) fun w _ aborted =>
      .inl (by rwa [txn])

/-- What holds of clients that unlock and commit nothing of a transaction while a call of it
sleeps. -/
theorem keepsCover_of_causes {e : Event} {past : List (Engine × Event)} (fair : e.Fair tableOf s₀)
    (locks : e.KeepsLocks s₀) (causes : e.Causes s₀ s a) :
    s.KeepsCover (Orphaned · · · · ((s₀, e) :: past)) (Astray · · · · ((s₀, e) :: past)) a := by
  cases a with
  | join c | swap c old => exact (fair_of_causes fair causes).1
  | give h r m =>
    obtain ⟨callers, why⟩ := causes
    rw [KeepsCover, hasCall_iff, callers, ← hasCall_iff]
    rcases why with ⟨forced, rfl⟩ | rfl | rfl | ⟨-, aborted⟩
    · exact .inl locks
    · exact .inl locks
    · exact .inl locks
    · exact .inr aborted
  | mark h k =>
    cases k with
    | setState state =>
      obtain ⟨rfl, rfl⟩ := causes
      intro aborted
      by_cases still : state = .aborted
      · exact .inl still
      · exact .inr fun t row m awaits => ⟨awaits, .inl ⟨state, rfl, still, aborted⟩⟩
    | _ => trivial
  | quit w =>
    obtain ⟨rfl, n, rfl, found⟩ := causes
    intro t row m old aborted on upgrade covers there
    exact .inr ⟨there, .inl ⟨old, ⟨n, w, rfl, found, rfl, on, upgrade, aborted⟩, covers⟩⟩
  | _ => trivial

theorem Run.coverage {past : List (Engine × Event)}
    (run : Run config (fun s e => e.Fair tableOf s ∧ e.KeepsLocks s) past s) :
    s.Books tableOf ∧ s.Coverage (Orphaned · · · · past) (Astray · · · · past) := by
  induction run with
  | fresh => exact ⟨books_fresh config, coverage_fresh config⟩
  | @next past s₀ w e run complete allowed ih =>
    obtain ⟨fair, locks⟩ := allowed
    obtain ⟨books, coverage⟩ := ih
    have start : s₀.Coverage (Orphaned · · · · ((s₀, e) :: past))
        (Astray · · · · ((s₀, e) :: past)) := by
      refine ⟨fun h t row m there => ?_, fun w asleep t row on live => ?_, coverage.upgrades⟩
      · exact (coverage.rows h t row m there).imp_right
          (Or.imp_right fun lost => .inr ⟨there, .inr lost⟩)
      · exact (coverage.calls w asleep t row on live).imp_right
          fun gone => ⟨⟨w, asleep, rfl, on, rfl⟩, .inr gone⟩
    refine (after_path w e).keeps (P := fun s => s.Books tableOf ∧
      s.Coverage (Orphaned · · · · ((s₀, e) :: past)) (Astray · · · · ((s₀, e) :: past))) ?_
        ⟨books, start⟩
    rintro s a s' ⟨books, coverage⟩ does causes
    exact ⟨books.move does (fair_of_causes fair causes),
      coverage.move books (fun _ _ _ _ => .inl) does (keepsCover_of_causes fair locks causes)⟩

/-- In every run whose clients unlock and commit nothing of a transaction while a call of it
sleeps, a row lock on record is covered by a table lock on record, or a call sleeps to exchange a
table lock that covered it, or it has been on record ever since an abort ended such a call, or ever
since it was taken by a call that slept while the abort of its transaction was taken back. -/
theorem row_lock_covered {past : List (Engine × Event)}
    (run : Run config (fun s e => e.Fair tableOf s ∧ e.KeepsLocks s) past s)
    (held : (⟨.row t row, m⟩ : Lock) ∈ (s.txn h).locks) :
    Policy.tableLockForRow ((s.txn h).locks.mode? (.table t)) m = none ∨
      s.AwaitsCover h t m ∨ Orphaned h t row m past := by
  obtain ⟨books, coverage⟩ := run.coverage
  refine (coverage.rows h t row m held).imp_left fun ⟨mode, there, covers⟩ => ?_
  cases recorded : (s.txn h).locks.mode? (.table t) with
  | none => exact absurd there (LockSet.mode?_eq_none_iff.1 recorded mode)
  | some mode' =>
    obtain ⟨-, rfl⟩ := books.lock_unique (LockSet.mem_of_mode? recorded) there rfl
    exact Policy.tableLockForRow_some.2 covers

/-- For instance under a table lock that has been exchanged for a stronger one. -/
theorem row_lock_covered_after_upgrade :
    let s := (fresh {}).afterAll .ascending
      [.op (.begin .repeatableRead), .op (.lock ⟨1, 0, .intentionExclusive, .table 1⟩),
        .op (.lock ⟨2, 0, .exclusive, .row 1 ⟨0, 0⟩⟩), .op (.lock ⟨3, 0, .exclusive, .table 1⟩)]
    (⟨.row 1 ⟨0, 0⟩, .exclusive⟩ : Lock) ∈ (s.txn 0).locks ∧ ∃ past,
      Run {} (fun s e => e.Fair (fun _ => 1) s ∧ e.KeepsLocks s) past s ∧
        (Policy.tableLockForRow ((s.txn 0).locks.mode? (.table 1)) .exclusive = none ∨
          s.AwaitsCover 0 1 .exclusive ∨ Orphaned 0 1 ⟨0, 0⟩ .exclusive past) := by
  intro s
  have held : (⟨.row 1 ⟨0, 0⟩, .exclusive⟩ : Lock) ∈ (s.txn 0).locks := by
    decide +kernel
  have reach : Reachable {} (fun s e => e.Fair (fun _ => 1) s ∧ e.KeepsLocks s) s :=
    Reachable.afterAll Walk.complete_ascending .fresh (by decide +kernel)
  obtain ⟨past, run⟩ := reach.exists_run
  exact ⟨held, past, run, row_lock_covered run held⟩

/-- The cover is not always there: it is missing while its exchange waits, when the exchange was
ended by an abort, and when an abort gave it back before a row was granted and was itself taken
back. -/
theorem row_lock_not_always_covered :
    let exposes (es : List Event) : Prop :=
      let s := (fresh {}).afterAll .ascending es
      Reachable {} (fun s e => e.Fair (fun _ => 1) s ∧ e.KeepsLocks s) s ∧ s.isQuiet = true ∧
        (⟨.row 1 ⟨0, 0⟩, .exclusive⟩ : Lock) ∈ (s.txn 0).locks ∧
        Policy.tableLockForRow ((s.txn 0).locks.mode? (.table 1)) .exclusive ≠ none
    let shared : List Event := [.op (.begin .repeatableRead), .op (.begin .repeatableRead),
      .op (.lock ⟨2, 0, .intentionExclusive, .table 1⟩),
      .op (.lock ⟨3, 1, .intentionExclusive, .table 1⟩)]
    let waiting := shared ++ [.op (.lock ⟨4, 0, .exclusive, .row 1 ⟨0, 0⟩⟩),
      .op (.lock ⟨5, 0, .exclusive, .table 1⟩)]
    exposes waiting ∧ exposes (waiting ++ [.op (.abortAndWake 0), .wake 5]) ∧
      exposes (shared ++ [.op (.lock ⟨4, 1, .exclusive, .row 1 ⟨0, 0⟩⟩),
        .op (.lock ⟨5, 0, .exclusive, .row 1 ⟨0, 0⟩⟩), .op (.abort 0),
        .op (.setState 0 .growing), .op (.unlock 1 (.row 1 ⟨0, 0⟩) false), .wake 5]) := by
  intro exposes shared waiting
  have reached {es : List Event} (allowed : Allows .ascending
      (fun s e => e.Fair (fun _ => 1) s ∧ e.KeepsLocks s) (fresh {}) es) :
      Reachable {} (fun s e => e.Fair (fun _ => 1) s ∧ e.KeepsLocks s)
        ((fresh {}).afterAll .ascending es) :=
    Reachable.afterAll Walk.complete_ascending .fresh allowed
  refine ⟨⟨reached ?_, ?_, ?_, ?_⟩, ⟨reached ?_, ?_, ?_, ?_⟩, ⟨reached ?_, ?_, ?_, ?_⟩⟩
  all_goals decide +kernel

end Engine

end TwoPhaseLocking

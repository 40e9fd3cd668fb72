import TwoPhaseLocking.Proofs.Queue

/-! # Leaving a queue

Whoever leaves a queue may let others in. It does not matter to a grant pass whether there was one
before somebody left, for whoever was let in then is let in at the latest now. So several calls can
leave one after the other in any order.
-/

namespace TwoPhaseLocking.Queue

variable {q : Queue} {id id' : TxnId}

/-- Only which modes are held matters to a grant pass, not in what order or how often. -/
theorem grantWaiting_congr {held held' : List Mode} (same : ∀ m, m ∈ held ↔ m ∈ held')
    (rs : List Request) : grantWaiting held rs = grantWaiting held' rs := by
  induction rs generalizing held held' with
  | nil => rfl
  | cons r rs ih =>
    have fits : r.mode.compatibleWithAll held = r.mode.compatibleWithAll held' := by
      rw [Bool.eq_iff_iff, Mode.compatibleWithAll_iff, Mode.compatibleWithAll_iff]
      exact forall_congr' fun m => imp_congr_left (same m)
    have more (m : Mode) : m ∈ r.mode :: held ↔ m ∈ r.mode :: held' := by simp [same]
    rw [grantWaiting, grantWaiting, fits, ih same, ih more]

/-- A grant pass over the end of a queue, behind requests that hold the modes `seen`. -/
def grantBehind (seen : List Mode) (rs : List Request) : List Request :=
  (grantWaiting (seen ++ (ofList rs).heldModes) rs).1

theorem grantBehind_granted {r : Request} (granted : r.granted = true) (seen : List Mode)
    (rs : List Request) : grantBehind seen (r :: rs) = r :: grantBehind (r.mode :: seen) rs := by
  have counted : (ofList (r :: rs)).heldModes = r.mode :: (ofList rs).heldModes := by
    simp [heldModes, ofList, granted]
  have same (m : Mode) : m ∈ seen ++ r.mode :: (ofList rs).heldModes ↔
      m ∈ r.mode :: seen ++ (ofList rs).heldModes := by simp [or_left_comm]
  rw [grantBehind, counted, grantWaiting, if_pos granted, grantWaiting_congr same]
  rfl

theorem grantBehind_fits {r : Request} {seen : List Mode} {rs : List Request}
    (waits : ¬ r.granted = true)
    (fits : r.mode.compatibleWithAll (seen ++ (ofList rs).heldModes) = true) :
    grantBehind seen (r :: rs) = { r with granted := true } :: grantBehind (r.mode :: seen) rs := by
  have uncounted : (ofList (r :: rs)).heldModes = (ofList rs).heldModes := by
    simp [heldModes, ofList, waits]
  rw [grantBehind, uncounted, grantWaiting, if_neg waits, if_pos fits]
  rfl

/-- When some have left and others joined at the tail, a grant pass comes to the same whether or not
there was one before, with more modes held: whoever was granted then is granted now. -/
theorem grantBehind_filter (p : TxnId → Bool) {seen held : List Mode} {rs late : List Request}
    (waiting : ∀ a ∈ late, a.granted = false) (fewer : ∀ m ∈ seen, m ∈ held)
    (counted : ∀ a ∈ rs, a.granted = true → a.mode ∈ held) :
    grantBehind seen ((grantWaiting held rs).1.filter (p ·.txn) ++ late) =
      grantBehind seen (rs.filter (p ·.txn) ++ late) := by
  have more {m : Mode} {seen held : List Mode} (fewer : ∀ m ∈ seen, m ∈ held) (here : m ∈ held) :
      ∀ m' ∈ m :: seen, m' ∈ held := by
    rintro m' (_ | ⟨_, there⟩)
    · exact here
    · exact fewer m' there
  fun_induction grantWaiting held rs generalizing seen with
  | case1 => rfl
  | case2 held r rs granted ih =>
    have counted' : ∀ a ∈ rs, a.granted = true → a.mode ∈ held :=
      fun a ha => counted a (List.mem_cons_of_mem _ ha)
    rw [Prod.map_fst, List.filter_cons, List.filter_cons]
    split
    · rw [List.cons_append, List.cons_append, grantBehind_granted granted,
        grantBehind_granted granted,
        ih (more fewer (counted r List.mem_cons_self granted)) counted']
    · exact ih fewer counted'
  | case3 held r rs waits fits ih =>
    have counted' : ∀ a ∈ rs, a.granted = true → a.mode ∈ r.mode :: held :=
      fun a ha granted => List.mem_cons_of_mem _ (counted a (List.mem_cons_of_mem _ ha) granted)
    have fewer' : ∀ m ∈ seen, m ∈ r.mode :: held := fun m hm => List.mem_cons_of_mem _ (fewer m hm)
    rw [Prod.map_fst, List.filter_cons, List.filter_cons]
    split
    · -- the request fits what is held now, as it fitted more
      have now : r.mode.compatibleWithAll
          (seen ++ (ofList (rs.filter (p ·.txn) ++ late)).heldModes) = true := by
        rw [Mode.compatibleWithAll_iff] at fits ⊢
        intro m hm
        refine fits m ((List.mem_append.1 hm).elim (fewer m) fun there => ?_)
        obtain ⟨a, ha, granted, rfl⟩ := mem_heldModes.1 there
        rcases List.mem_append.1 ha with ha | ha
        · exact counted a (List.mem_cons_of_mem _ (List.mem_of_mem_filter ha)) granted
        · rw [waiting a ha] at granted
          cases granted
      rw [List.cons_append, List.cons_append, grantBehind_granted rfl, grantBehind_fits waits now,
        ih (more fewer' List.mem_cons_self) counted']
    · exact ih fewer' counted'
  | case4 => rfl

/-- Where nobody stands twice, leaving a queue leaves nothing behind. -/
theorem Once.requests_remove (once : q.Once) (id : TxnId) :
    (q.remove id).requests = q.requests.filter (·.txn != id) := by
  have each : ∀ rs : List Request, (rs.map (·.txn)).Nodup →
      rs.eraseP (·.txn == id) = rs.filter (·.txn != id) := by
    intro rs
    induction rs with
    | nil => exact fun _ => rfl
    | cons r rs ih =>
      intro nodup
      obtain ⟨first, rest⟩ := List.nodup_cons.1 nodup
      by_cases mine : r.txn = id
      · have others : rs.filter (·.txn != id) = rs := List.filter_eq_self.2 fun x hx => by
          rw [bne_iff_ne, ← mine]
          exact fun same => first (List.mem_map.2 ⟨x, hx, same⟩)
        simp [mine, others]
      · simp [mine, ih rest]
  exact each q.requests once

/-- When somebody leaves, a grant pass before that makes no difference to one after it. -/
theorem Once.grant_remove (once : q.Once) (id : TxnId) :
    (q.grant.remove id).grant = (q.remove id).grant := by
  have same : grantBehind [] (q.grant.requests.filter (·.txn != id) ++ []) =
      grantBehind [] (q.requests.filter (·.txn != id) ++ []) :=
    grantBehind_filter (· != id) nofun nofun fun a ha granted => mem_heldModes.2 ⟨a, ha, granted, rfl⟩
  rw [List.append_nil, List.append_nil] at same
  change Queue.mk (grantBehind [] (q.grant.remove id).requests) q.upgrading =
    Queue.mk (grantBehind [] (q.remove id).requests) q.upgrading
  rw [once.grant.requests_remove, once.requests_remove]
  exact congrArg (Queue.mk · q.upgrading) same

/-- An aborted call leaves: it takes back its upgrade mark and its request, and the queue is looked
through once more. -/
def leave (q : Queue) (id : TxnId) : Queue := ((q.clearUpgrading id).remove id).grant

theorem clearUpgrading_comm (q : Queue) (id id' : TxnId) :
    (q.clearUpgrading id).clearUpgrading id' = (q.clearUpgrading id').clearUpgrading id := by
  unfold clearUpgrading
  grind

theorem clearUpgrading_remove (q : Queue) (id id' : TxnId) :
    (q.clearUpgrading id).remove id' = (q.remove id').clearUpgrading id := by
  by_cases mine : q.upgrading = some id <;> simp [clearUpgrading, remove, mine]

theorem clearUpgrading_grant (q : Queue) (id : TxnId) :
    (q.clearUpgrading id).grant = q.grant.clearUpgrading id := by
  by_cases mine : q.upgrading = some id <;> simp [clearUpgrading, grant, heldModes, mine]

theorem leave_eq (q : Queue) (id : TxnId) : q.leave id = (q.remove id).grant.clearUpgrading id := by
  rw [leave, clearUpgrading_remove, clearUpgrading_grant]

/-- Whoever joins a queue and leaves it at once leaves nothing behind but a grant pass. -/
theorem Once.leave_push (once : q.Once) {r : Request} (absent : ∀ x ∈ q.requests, x.txn ≠ r.txn)
    (unmarked : q.upgrading ≠ some r.txn) : (q.push r).grant.leave r.txn = q.grant := by
  have back : (q.push r).remove r.txn = q := by
    refine congrArg (Queue.mk · q.upgrading) ?_
    rw [requests_push, List.eraseP_append_right]
    · simp
    · exact fun x hx => by simpa using absent x hx
  rw [leave_eq, (once.push absent).grant_remove, back]
  exact if_neg unmarked

/-- Whoever takes what he was granted does not stand in the way of those who leave. -/
theorem clearUpgrading_leave (q : Queue) (id id' : TxnId) :
    (q.clearUpgrading id).leave id' = (q.leave id').clearUpgrading id := by
  rw [leave, leave, clearUpgrading_comm, clearUpgrading_remove _ id, clearUpgrading_grant]

/-- Two leave in either order. The one who goes first may let others in, and these are let in at the
latest when both are gone. -/
theorem Once.leave_comm (once : q.Once) (id id' : TxnId) :
    (q.leave id).leave id' = (q.leave id').leave id := by
  have both (id id' : TxnId) : (q.leave id).leave id' =
      (((q.remove id).remove id').grant.clearUpgrading id).clearUpgrading id' := by
    rw [leave_eq, leave_eq, clearUpgrading_remove, clearUpgrading_grant,
      (once.remove id).grant_remove]
  have swap : (q.remove id).remove id' = (q.remove id').remove id := by
    by_cases same : id = id'
    · rw [same]
    · refine congrArg (Queue.mk · q.upgrading) (List.eraseP_comm fun x _ => ?_)
      simp only [beq_iff_eq]
      exact not_and_or.1 fun own => same (own.1.symm.trans own.2)
  rw [both, both, swap, clearUpgrading_comm]

theorem isGranted_clearUpgrading (q : Queue) (id id' : TxnId) :
    (q.clearUpgrading id).isGranted id' = q.isGranted id' := by
  rw [isGranted, find?, requests_clearUpgrading, isGranted, find?]

/-- Whoever was granted keeps that when others leave. -/
theorem Once.isGranted_leave (once : q.Once) (other : id' ≠ id) (granted : q.isGranted id' = true) :
    (q.leave id).isGranted id' = true := by
  obtain ⟨x, hx, own, granted⟩ := exists_of_isGranted granted
  have left : x ∈ (q.remove id).requests := (mem_remove_of_ne (by rwa [own])).2 hx
  obtain ⟨y, hy, grown⟩ := exists_mem_grant left
  have here := (once.remove id).grant.isGranted_of_mem hy (grown.2 granted)
  rwa [grown.same.1, own, ← isGranted_clearUpgrading _ id, ← leave_eq] at here

end TwoPhaseLocking.Queue

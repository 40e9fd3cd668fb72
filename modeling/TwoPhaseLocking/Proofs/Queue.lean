import Mathlib.Data.List.Forall2
import Mathlib.Data.List.Nodup
import Mathlib.Data.List.Pairwise
import Mathlib.Logic.Relation
import TwoPhaseLocking.Queue

/-! # Orderly and consistent queues

A queue is orderly when its granted requests stand in front and go together, and consistent
when moreover nobody waits who could be granted. Whatever is done to an orderly queue keeps
it orderly, and a grant pass makes it consistent. A grant pass itself does no more than
turn waiting requests into granted ones, each in its place.
-/

namespace TwoPhaseLocking

/-- The second request is the first, which may have been granted meanwhile. -/
def Request.GrownTo (a b : Request) : Prop :=
  b = { a with granted := b.granted } ∧ (a.granted = true → b.granted = true)

theorem Request.GrownTo.refl (a : Request) : a.GrownTo a := ⟨rfl, id⟩

theorem Request.GrownTo.trans {a b c : Request} (first : a.GrownTo b) (second : b.GrownTo c) :
    a.GrownTo c :=
  ⟨by rw [second.1, first.1], second.2 ∘ first.2⟩

theorem Request.GrownTo.same {a b : Request} (h : a.GrownTo b) :
    b.txn = a.txn ∧ b.mode = a.mode ∧ b.resource = a.resource ∧ b.call = a.call := by
  rw [h.1]
  exact ⟨rfl, rfl, rfl, rfl⟩

theorem Request.GrownTo.waits {a b : Request} (grown : a.GrownTo b) (waits : b.granted = false) :
    a.granted = false := by
  cases granted : a.granted with
  | false => rfl
  | true =>
    rw [grown.2 granted] at waits
    cases waits

namespace Queue

/-- The granted requests stand in front of those that wait, and any two of them may be
held together. -/
structure Orderly (q : Queue) : Prop where
  front : q.requests.Pairwise fun a b => b.granted = true → a.granted = true
  compatible : q.requests.Pairwise fun a b =>
    a.granted = true → b.granted = true → a.mode.compatible b.mode = true

/-- An orderly queue in which the first request that waits has to. -/
structure Consistent (q : Queue) : Prop extends Orderly q where
  blocked : ∀ r, q.requests.find? (!·.granted) = some r →
    ∃ a ∈ q.requests, a.granted = true ∧ r.mode.compatible a.mode = false

theorem consistent_empty : Queue.Consistent {} where
  front := .nil
  compatible := .nil
  blocked := by simp

/-- The head of a consistent queue is granted: there is nobody it could wait for. -/
theorem Consistent.head_granted {q : Queue} (h : q.Consistent) {r : Request}
    (hr : q.requests.head? = some r) : r.granted = true := by
  obtain ⟨rest, hq⟩ := List.head?_eq_some_iff.1 hr
  by_contra waits
  obtain ⟨a, ha, granted, -⟩ := h.blocked r (by simp [hq, waits])
  rw [hq] at ha
  rcases List.mem_cons.1 ha with rfl | ha
  · exact waits granted
  · have front := h.front
    rw [hq, List.pairwise_cons] at front
    exact waits (front.1 a ha granted)

/-- Any two locks granted by an orderly queue may be held together. -/
theorem Orderly.compatible_of_mem {q : Queue} (orderly : q.Orderly) {a b : Request}
    (ha : a ∈ q.requests) (hb : b ∈ q.requests) (ne : a ≠ b) (granted : a.granted = true)
    (granted' : b.granted = true) : a.mode.compatible b.mode = true := by
  have symmetric : Std.Symm fun a b : Request =>
      a.granted = true → b.granted = true → a.mode.compatible b.mode = true :=
    ⟨fun a b both hb ha => by rw [Mode.compatible_comm]; exact both ha hb⟩
  exact orderly.compatible.forall ha hb ne granted granted'

theorem grantWaiting_grown (held : List Mode) (rs : List Request) :
    List.Forall₂ Request.GrownTo rs (grantWaiting held rs).1 := by
  fun_induction grantWaiting held rs with
  | case1 => exact .nil
  | case2 held r rs granted ih => exact .cons (.refl r) ih
  | case3 held r rs waits fits ih => exact .cons ⟨rfl, fun _ => rfl⟩ ih
  | case4 held r rs =>
    exact List.forall₂_same.2 fun a _ => .refl a

/-- Each request of a grown list was there before. -/
theorem exists_of_mem_grown {rs rs' : List Request} (grown : List.Forall₂ Request.GrownTo rs rs') :
    ∀ b ∈ rs', ∃ a ∈ rs, a.GrownTo b := by
  induction grown with
  | nil => simp
  | @cons a b rs rs' hab _ ih =>
    intro c hc
    rcases List.mem_cons.1 hc with rfl | hc
    · exact ⟨a, by simp, hab⟩
    · obtain ⟨a', ha', grown⟩ := ih c hc
      exact ⟨a', by simp [ha'], grown⟩

/-- Each request of a list is still there when the list has grown. -/
theorem exists_mem_grown {rs rs' : List Request} (grown : List.Forall₂ Request.GrownTo rs rs') :
    ∀ a ∈ rs, ∃ b ∈ rs', a.GrownTo b := by
  induction grown with
  | nil => simp
  | @cons a b rs rs' hab _ ih =>
    intro c hc
    rcases List.mem_cons.1 hc with rfl | hc
    · exact ⟨b, by simp, hab⟩
    · obtain ⟨b', hb', grown⟩ := ih c hc
      exact ⟨b', by simp [hb'], grown⟩

/-- Each part of a list grows by itself. -/
theorem grown_append {xs ys rs : List Request}
    (grown : List.Forall₂ Request.GrownTo (xs ++ ys) rs) :
    ∃ xs' ys', rs = xs' ++ ys' ∧ List.Forall₂ Request.GrownTo xs xs' ∧
      List.Forall₂ Request.GrownTo ys ys' := by
  induction xs generalizing rs with
  | nil => exact ⟨[], rs, rfl, .nil, grown⟩
  | cons x xs ih =>
    cases grown with
    | cons first rest =>
      obtain ⟨xs', ys', rfl, front, back⟩ := ih rest
      exact ⟨_ :: xs', ys', rfl, .cons first front, back⟩

theorem txns_grown {rs rs' : List Request} (grown : List.Forall₂ Request.GrownTo rs rs') :
    rs'.map (·.txn) = rs.map (·.txn) := by
  induction grown with
  | nil => rfl
  | cons hab _ ih => simp [hab.same.1, ih]

theorem grant_grown (q : Queue) : List.Forall₂ Request.GrownTo q.requests q.grant.requests :=
  grantWaiting_grown _ _

theorem exists_of_mem_grant {q : Queue} {b : Request} (hb : b ∈ q.grant.requests) :
    ∃ a ∈ q.requests, a.GrownTo b :=
  exists_of_mem_grown q.grant_grown b hb

theorem exists_mem_grant {q : Queue} {a : Request} (ha : a ∈ q.requests) :
    ∃ b ∈ q.grant.requests, a.GrownTo b :=
  exists_mem_grown q.grant_grown a ha

@[simp]
theorem txns_grant (q : Queue) : q.grant.requests.map (·.txn) = q.requests.map (·.txn) :=
  txns_grown q.grant_grown

/-- Whoever a grant pass grants fits all modes held before. -/
theorem fits_of_mem_grantWaiting {held : List Mode} {rs : List Request}
    (front : rs.Pairwise fun a b => b.granted = true → a.granted = true) {b : Request}
    (hb : b ∈ (grantWaiting held rs).1) (granted : b.granted = true) :
    b ∈ rs ∨ ∀ m ∈ held, b.mode.compatible m = true := by
  fun_induction grantWaiting held rs with
  | case1 => simp at hb
  | case2 held r rs _ ih =>
    rcases List.mem_cons.1 hb with rfl | hb
    · exact .inl (by simp)
    · exact (ih (List.pairwise_cons.1 front).2 hb).imp (by simp +contextual) id
  | case3 held r rs waits fits ih =>
    rw [Mode.compatibleWithAll_iff] at fits
    rcases List.mem_cons.1 hb with rfl | hb
    · exact .inr fits
    · rcases ih (List.pairwise_cons.1 front).2 hb with hb | new
      · exact .inl (List.mem_cons_of_mem _ hb)
      · exact .inr fun m hm => new m (List.mem_cons_of_mem _ hm)
  | case4 => exact .inl hb

/-- The invariant of the pass: the modes `held` include those of all granted requests that
are still to be walked over. -/
theorem orderly_grantWaiting {held : List Mode} {rs : List Request}
    (front : rs.Pairwise fun a b => b.granted = true → a.granted = true)
    (compatible : rs.Pairwise fun a b =>
      a.granted = true → b.granted = true → a.mode.compatible b.mode = true)
    (counted : ∀ a ∈ rs, a.granted = true → a.mode ∈ held) :
    Orderly { requests := (grantWaiting held rs).1 } := by
  fun_induction grantWaiting held rs with
  | case1 => exact ⟨.nil, .nil⟩
  | case2 held r rs granted ih =>
    rw [List.pairwise_cons] at front compatible
    obtain ⟨front', compatible'⟩ :=
      ih front.2 compatible.2 fun a ha => counted a (List.mem_cons_of_mem _ ha)
    refine ⟨List.pairwise_cons.2 ⟨fun _ _ _ => granted, front'⟩,
      List.pairwise_cons.2 ⟨fun b hb _ hg => ?_, compatible'⟩⟩
    rcases fits_of_mem_grantWaiting front.2 hb hg with hb | fits
    · exact compatible.1 b hb granted hg
    · rw [Mode.compatible_comm]
      exact fits r.mode (counted r (by simp) granted)
  | case3 held r rs waits fits ih =>
    rw [List.pairwise_cons] at front compatible
    have behind : ∀ a ∈ rs, a.granted ≠ true := fun a ha hg => waits (front.1 a ha hg)
    obtain ⟨front', compatible'⟩ :=
      ih front.2 compatible.2 fun a ha hg => absurd hg (behind a ha)
    refine ⟨List.pairwise_cons.2 ⟨fun _ _ _ => rfl, front'⟩,
      List.pairwise_cons.2 ⟨fun b hb _ hg => ?_, compatible'⟩⟩
    rcases fits_of_mem_grantWaiting front.2 hb hg with hb | fits
    · exact absurd hg (behind b hb)
    · rw [Mode.compatible_comm]
      exact fits r.mode (by simp)
  | case4 => exact ⟨front, compatible⟩

/-- Whoever still waits at the head of the waiting ones after a pass cannot be granted. -/
theorem blocked_grantWaiting {held : List Mode} {rs : List Request} {r : Request}
    (hr : (grantWaiting held rs).1.find? (!·.granted) = some r) :
    (∃ m ∈ held, r.mode.compatible m = false) ∨
      ∃ a ∈ (grantWaiting held rs).1, a.granted = true ∧ r.mode.compatible a.mode = false := by
  fun_induction grantWaiting held rs with
  | case1 => simp at hr
  | case2 held a rs granted ih =>
    simp only [Prod.map_fst, List.find?_cons, granted, Bool.not_true] at hr
    rcases ih hr with hm | ⟨b, hb, excluded⟩
    · exact .inl hm
    · exact .inr ⟨b, List.mem_cons_of_mem _ hb, excluded⟩
  | case3 held a rs waits fits ih =>
    simp only [Prod.map_fst, List.find?_cons, Bool.not_true] at hr
    rcases ih hr with ⟨m, hm, excluded⟩ | ⟨b, hb, excluded⟩
    · rcases List.mem_cons.1 hm with rfl | hm
      · exact .inr ⟨{ a with granted := true }, by simp, rfl, excluded⟩
      · exact .inl ⟨m, hm, excluded⟩
    · exact .inr ⟨b, List.mem_cons_of_mem _ hb, excluded⟩
  | case4 held a rs waits unfit =>
    simp only [List.find?_cons, waits, Bool.not_false, Option.some.injEq] at hr
    subst hr
    rw [Mode.compatibleWithAll_iff] at unfit
    push Not at unfit
    obtain ⟨m, hm, excluded⟩ := unfit
    exact .inl ⟨m, hm, by simpa using excluded⟩

theorem mem_heldModes {q : Queue} {m : Mode} :
    m ∈ q.heldModes ↔ ∃ a ∈ q.requests, a.granted = true ∧ a.mode = m := by
  simp [heldModes, and_assoc]

/-- A grant pass restores consistency. -/
theorem Orderly.consistent_grant {q : Queue} (h : q.Orderly) : q.grant.Consistent where
  toOrderly := by
    obtain ⟨front, compatible⟩ := orderly_grantWaiting h.front h.compatible
      fun a ha hg => mem_heldModes.2 ⟨a, ha, hg, rfl⟩
    exact ⟨front, compatible⟩
  blocked r hr := by
    rcases blocked_grantWaiting hr with ⟨m, hm, excluded⟩ | found
    · obtain ⟨a, ha, granted, rfl⟩ := mem_heldModes.1 hm
      obtain ⟨b, hb, grown⟩ := exists_mem_grant ha
      exact ⟨b, hb, grown.2 granted, by rw [grown.same.2.1]; exact excluded⟩
    · exact found

/-- A consistent queue has nothing for a grant pass to do. -/
theorem Consistent.grant_eq {q : Queue} (h : q.Consistent) : q.grant = q := by
  have stays : ∀ rs : List Request, (∀ r, rs.find? (!·.granted) = some r →
      ∃ m ∈ q.heldModes, r.mode.compatible m = false) → (grantWaiting q.heldModes rs).1 = rs := by
    intro rs
    induction rs with
    | nil => exact fun _ => rfl
    | cons a rs ih =>
      intro blocked
      unfold grantWaiting
      split
      · rename_i granted
        have rest := ih fun r hr => blocked r (by simpa [List.find?_cons, granted] using hr)
        simp [rest]
      · rename_i waits
        obtain ⟨m, hm, excluded⟩ := blocked a (by simp [waits])
        rw [if_neg]
        rw [Mode.compatibleWithAll_iff]
        intro fits
        rw [fits m hm] at excluded
        cases excluded
  have same := stays q.requests fun r hr => by
    obtain ⟨a, ha, granted, excluded⟩ := h.blocked r hr
    exact ⟨a.mode, mem_heldModes.2 ⟨a, ha, granted, rfl⟩, excluded⟩
  exact congrArg (Queue.mk · q.upgrading) same

theorem Orderly.push {q : Queue} (h : q.Orderly) {r : Request} (waits : r.granted = false) :
    (q.push r).Orderly where
  front := List.pairwise_append.2 ⟨h.front, List.pairwise_singleton _ _, by simp [waits]⟩
  compatible :=
    List.pairwise_append.2 ⟨h.compatible, List.pairwise_singleton _ _, by simp [waits]⟩

theorem Orderly.remove {q : Queue} (h : q.Orderly) (id : TxnId) : (q.remove id).Orderly where
  front := h.front.sublist List.eraseP_sublist
  compatible := h.compatible.sublist List.eraseP_sublist

theorem Orderly.clearUpgrading {q : Queue} (h : q.Orderly) (id : TxnId) :
    (q.clearUpgrading id).Orderly :=
  ⟨by simpa using h.front, by simpa using h.compatible⟩

theorem Consistent.clearUpgrading {q : Queue} (h : q.Consistent) (id : TxnId) :
    (q.clearUpgrading id).Consistent :=
  ⟨h.toOrderly.clearUpgrading id, by simpa using h.blocked⟩

/-- Behind the first request that waits, everybody waits. -/
theorem waits_of_mem_dropWhile {rs : List Request}
    (front : rs.Pairwise fun a b => b.granted = true → a.granted = true) {a : Request}
    (ha : a ∈ rs.dropWhile (·.granted)) : a.granted = false := by
  induction rs with
  | nil => simp at ha
  | cons r rs ih =>
    rw [List.pairwise_cons] at front
    cases granted : r.granted with
    | true => exact ih front.2 (by simpa [List.dropWhile_cons, granted] using ha)
    | false =>
      rw [List.dropWhile_cons_of_neg (by simp [granted])] at ha
      rcases List.mem_cons.1 ha with rfl | ha
      · exact granted
      · by_contra hg
        exact absurd (front.1 a ha (by simpa using hg)) (by simp [granted])

theorem Orderly.insertUpgrade {q : Queue} (h : q.Orderly) {r : Request}
    (waits : r.granted = false) : (q.insertUpgrade r).Orderly := by
  have split := List.takeWhile_append_dropWhile (p := fun a : Request => a.granted)
    (l := q.requests)
  have behind : ∀ a ∈ q.requests.dropWhile (·.granted), a.granted = false :=
    fun a ha => waits_of_mem_dropWhile h.front ha
  obtain ⟨front, compatible⟩ := h
  rw [← split, List.pairwise_append] at front compatible
  refine ⟨?_, ?_⟩
  · refine List.pairwise_append.2 ⟨front.1, List.pairwise_cons.2 ⟨?_, front.2.1⟩, ?_⟩
    · intro b hb hg
      rw [behind b hb] at hg
      cases hg
    · intro a ha b hb
      rcases List.mem_cons.1 hb with rfl | hb
      · simp [waits]
      · exact front.2.2 a ha b hb
  · refine List.pairwise_append.2 ⟨compatible.1, List.pairwise_cons.2 ⟨?_, compatible.2.1⟩, ?_⟩
    · simp [waits]
    · intro a ha b hb
      rcases List.mem_cons.1 hb with rfl | hb
      · simp [waits]
      · exact compatible.2.2 a ha b hb

/-- No transaction has two requests in the queue. -/
def Once (q : Queue) : Prop := (q.requests.map (·.txn)).Nodup

theorem Once.eq {q : Queue} (h : q.Once) {a b : Request} (ha : a ∈ q.requests)
    (hb : b ∈ q.requests) (same : a.txn = b.txn) : a = b :=
  List.inj_on_of_nodup_map h ha hb same

theorem Once.grant {q : Queue} (h : q.Once) : q.grant.Once := by
  rw [Once, txns_grant]
  exact h

theorem Once.push {q : Queue} (h : q.Once) {r : Request}
    (absent : ∀ x ∈ q.requests, x.txn ≠ r.txn) : (q.push r).Once := by
  rw [Once, requests_push, List.map_append, List.nodup_append]
  refine ⟨h, by simp, fun a ha b hb => ?_⟩
  obtain ⟨x, hx, rfl⟩ := List.mem_map.1 ha
  simp only [List.map_cons, List.map_nil, List.mem_singleton] at hb
  rw [hb]
  exact absent x hx

theorem Once.remove {q : Queue} (h : q.Once) (id : TxnId) : (q.remove id).Once :=
  h.sublist (List.eraseP_sublist.map _)

theorem requests_insertUpgrade_perm (q : Queue) (r : Request) :
    (q.insertUpgrade r).requests.Perm (r :: q.requests) := by
  have h : (q.requests.takeWhile (·.granted) ++ r :: q.requests.dropWhile (·.granted)).Perm _ :=
    List.perm_middle
  rwa [List.takeWhile_append_dropWhile] at h

theorem Once.insertUpgrade {q : Queue} (h : q.Once) {r : Request}
    (absent : ∀ x ∈ q.requests, x.txn ≠ r.txn) : (q.insertUpgrade r).Once := by
  rw [Once, (q.requests_insertUpgrade_perm r |>.map _).nodup_iff, List.map_cons, List.nodup_cons]
  refine ⟨fun there => ?_, h⟩
  obtain ⟨x, hx, same⟩ := List.mem_map.1 there
  exact absent x hx same

theorem txns_remove (q : Queue) (id : TxnId) :
    (q.remove id).requests.map (·.txn) = (q.requests.map (·.txn)).erase id := by
  rw [List.erase_eq_eraseP', List.eraseP_map]
  rfl

/-- Whoever is left in the queue is somebody else. -/
theorem Once.ne_of_mem_remove {q : Queue} (h : q.Once) {id : TxnId} {x : Request}
    (hx : x ∈ (q.remove id).requests) : x.txn ≠ id := by
  intro same
  have left : id ∈ (q.remove id).requests.map (·.txn) := List.mem_map.2 ⟨x, hx, same⟩
  rw [txns_remove] at left
  exact List.Nodup.not_mem_erase h left

theorem mem_remove_of_ne {q : Queue} {id : TxnId} {x : Request} (other : x.txn ≠ id) :
    x ∈ (q.remove id).requests ↔ x ∈ q.requests := by
  rw [requests_remove, List.mem_eraseP_of_neg (by simpa using other)]

/-- Somebody the queue calls granted has a granted request there. -/
theorem exists_of_isGranted {q : Queue} {id : TxnId} (h : q.isGranted id = true) :
    ∃ x ∈ q.requests, x.txn = id ∧ x.granted = true := by
  rw [isGranted, Option.any_eq_true] at h
  obtain ⟨x, found, granted⟩ := h
  exact ⟨x, List.mem_of_find?_eq_some found, by simpa using List.find?_some found, granted⟩

theorem Once.isGranted_of_mem {q : Queue} (h : q.Once) {x : Request} (hx : x ∈ q.requests)
    (granted : x.granted = true) : q.isGranted x.txn = true := by
  rw [isGranted, Option.any_eq_true]
  have found : (q.find? x.txn).isSome := List.find?_isSome.2 ⟨x, hx, by simp⟩
  obtain ⟨y, hy⟩ := Option.isSome_iff_exists.1 found
  have same : y.txn = x.txn := by simpa using List.find?_some hy
  rw [h.eq (List.mem_of_find?_eq_some hy) hx same] at hy
  exact ⟨x, hy, granted⟩

/-- A change of a queue in which nobody joins but with a request of a certain kind. -/
inductive Change (joins : Request → Prop) : Queue → Queue → Prop where
  | push {q r} (new : joins r) : Change joins q (q.push r)
  | insertUpgrade {q r} (new : joins r) : Change joins q (q.insertUpgrade r)
  | remove {q id} : Change joins q (q.remove id)
  | clearUpgrading {q id} : Change joins q (q.clearUpgrading id)
  | grant {q} : Change joins q q.grant

/-- One change after the other. -/
def Changes (joins : Request → Prop) : Queue → Queue → Prop := Relation.ReflTransGen (Change joins)

variable {joins : Request → Prop} {q q' : Queue} {y : Request}

/-- Whoever stands in a queue after a change stood there before, or has joined. -/
theorem Change.exists_mem (change : Change joins q q') (hy : y ∈ q'.requests) :
    ∃ x, (x ∈ q.requests ∨ joins x) ∧ x.GrownTo y := by
  cases change with
  | @push r new =>
    rcases List.mem_append.1 hy with hy | hy
    · exact ⟨y, .inl hy, .refl y⟩
    · obtain rfl := List.mem_singleton.1 hy
      exact ⟨y, .inr new, .refl y⟩
  | insertUpgrade new =>
    rcases mem_insertUpgrade.1 hy with rfl | hy
    · exact ⟨y, .inr new, .refl y⟩
    · exact ⟨y, .inl hy, .refl y⟩
  | remove => exact ⟨y, .inl (List.mem_of_mem_eraseP hy), .refl y⟩
  | clearUpgrading =>
    rw [requests_clearUpgrading] at hy
    exact ⟨y, .inl hy, .refl y⟩
  | grant =>
    obtain ⟨x, hx, grown⟩ := exists_of_mem_grant hy
    exact ⟨x, .inl hx, grown⟩

theorem Changes.exists_mem (changes : Changes joins q q') (hy : y ∈ q'.requests) :
    ∃ x, (x ∈ q.requests ∨ joins x) ∧ x.GrownTo y := by
  induction changes generalizing y with
  | refl => exact ⟨y, .inl hy, .refl y⟩
  | tail _ change ih =>
    obtain ⟨x, hx | new, grown⟩ := change.exists_mem hy
    · obtain ⟨z, hz, grown'⟩ := ih hx
      exact ⟨z, hz, grown'.trans grown⟩
    · exact ⟨x, .inr new, grown⟩

end Queue

end TwoPhaseLocking

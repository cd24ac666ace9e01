import MuditaOS.Appmgr.ActionsRegistry
import MuditaOS.Lib.Run
import Mathlib.Data.List.Nodup

/-!
# Actions executed once and in order

The queue is in the order in which its actions came, only the pending action in it has been
accepted, and what was passed over for a later action has been skipped. Every call keeps this
but one: `finished` looks for an element that equals the pending one, and takes the first.
-/

namespace MuditaOS.Appmgr

open Lib

variable {cb : OnNextActionReadyCallback} {now : Int} {status : ActionProcessStatus}

/-! ## Logs -/

section Logs

variable {log log' : List Offer} {n : Nat}

@[simp] theorem serials_append :
    serials status (log ++ log') = serials status log ++ serials status log' := by
  simp [serials]

theorem mem_serials :
    n ∈ serials status log ↔ ∃ o ∈ log, o.status = status ∧ o.action.serial = n := by
  simp [serials, and_assoc]

/-- Who was skipped before stays skipped. -/
theorem neverSkipped_append :
    neverSkipped (log ++ log') =
      (neverSkipped log).filter (fun serial => serial ∉ serials .Skipped log') ++
        (serials .Accepted log').filter
          (fun serial => serial ∉ serials .Skipped (log ++ log')) := by
  simp only [neverSkipped, serials_append, List.filter_append, List.filter_filter]
  congr 1
  refine List.filter_congr fun serial _ => ?_
  simp [Bool.and_comm]

end Logs

namespace ActionsRegistry

variable {r : ActionsRegistry} {l actions : List Queued} {q : Queued} {n : Nat}
  {log : List Offer}

/-! ## The loop -/

/-- What stays of actions none of which is accepted. -/
def kept (cb : OnNextActionReadyCallback) (l : List Queued) : List Queued :=
  (l.filter fun q => (cb q).status ≠ .Dropped).map (answered cb)

/-- Up to here nothing is accepted. -/
def Passed (cb : OnNextActionReadyCallback) (l : List Queued) : Prop :=
  ∀ q ∈ l, (cb q).status ≠ .Accepted

@[simp] theorem answered_serial : (answered cb q).serial = q.serial := rfl

theorem kept_sublist : ((kept cb l).map (·.serial)).Sublist (l.map (·.serial)) := by
  have hserials : (kept cb l).map (·.serial) =
      (l.filter fun q => (cb q).status ≠ .Dropped).map (·.serial) := by
    simp [kept, Function.comp_def]
  rw [hserials]
  exact List.filter_sublist.map _

theorem mem_kept : q ∈ kept cb l ↔ ∃ a ∈ l, (cb a).status ≠ .Dropped ∧ answered cb a = q := by
  simp [kept, and_assoc]

theorem notifyFrom_cons {a : Queued} (ha : (cb a).status ≠ .Accepted) :
    notifyFrom cb (a :: l) = (kept cb [a] ++ (notifyFrom cb l).1,
      (notifyFrom cb l).2.1.map (· + (kept cb [a]).length), offer cb a :: (notifyFrom cb l).2.2) := by
  cases hstatus : (cb a).status with
  | Accepted => exact absurd hstatus ha
  | Skipped => simp [notifyFrom, hstatus, kept]
  | Dropped => simp [notifyFrom, hstatus, kept]

/-- The loop offers the actions up to the first that is accepted, all of them if none is. -/
theorem notifyFrom_cases (cb : OnNextActionReadyCallback) (l : List Queued) :
    (Passed cb l ∧ notifyFrom cb l = (kept cb l, none, l.map (offer cb))) ∨
      ∃ ahead q rest, l = ahead ++ q :: rest ∧ Passed cb ahead ∧ (cb q).status = .Accepted ∧
        notifyFrom cb l =
          (kept cb ahead ++ answered cb q :: rest, some (kept cb ahead).length,
            (ahead ++ [q]).map (offer cb)) := by
  induction l with
  | nil => exact Or.inl ⟨fun _ h => absurd h List.not_mem_nil, rfl⟩
  | cons a l ih =>
      by_cases ha : (cb a).status = .Accepted
      · refine Or.inr ⟨[], a, l, rfl, fun _ h => absurd h List.not_mem_nil, ha, ?_⟩
        simp [notifyFrom, ha, kept]
      · have hkept : ∀ l, kept cb (a :: l) = kept cb [a] ++ kept cb l := fun l => by
          rw [kept, ← List.singleton_append, List.filter_append, List.map_append, kept, kept]
        rw [notifyFrom_cons ha]
        rcases ih with ⟨hpassed, hlooked⟩ | ⟨ahead, q, rest, rfl, hpassed, hq, hlooked⟩
        · refine Or.inl ⟨List.forall_mem_cons.2 ⟨ha, hpassed⟩, ?_⟩
          rw [hlooked, hkept l]
          rfl
        · refine Or.inr ⟨a :: ahead, q, rest, rfl,
            List.forall_mem_cons.2 ⟨ha, hpassed⟩, hq, ?_⟩
          rw [hlooked, hkept ahead, List.length_append, List.append_assoc, Nat.add_comm]
          rfl

theorem accepted_of_passed (h : Passed cb l) : serials .Accepted (l.map (offer cb)) = [] := by
  have hnone : ∀ q ∈ l, (offer cb q).status ≠ .Accepted := h
  simpa [serials, List.filter_eq_nil_iff] using hnone

theorem accepted_of_first (h : Passed cb l) (hq : (cb q).status = .Accepted) :
    serials .Accepted ((l ++ [q]).map (offer cb)) = [q.serial] := by
  rw [List.map_append, serials_append, accepted_of_passed h]
  simp [serials, offer, hq]

/-- Of the actions passed over those that stay have been skipped. -/
theorem skipped_of_kept (h : Passed cb l) (hq : q ∈ kept cb l) :
    q.serial ∈ serials .Skipped (l.map (offer cb)) := by
  obtain ⟨a, ha, hdropped, rfl⟩ := mem_kept.1 hq
  have haccepted := h a ha
  refine mem_serials.2 ⟨offer cb a, List.mem_map_of_mem ha, ?_, rfl⟩
  show (cb a).status = .Skipped
  cases hstatus : (cb a).status with
  | Accepted => exact absurd hstatus haccepted
  | Skipped => rfl
  | Dropped => exact absurd hstatus hdropped

/-- Who does not stay has been dropped. -/
theorem notifyFrom_keeps (hq : q ∈ l) :
    (∃ a ∈ (notifyFrom cb l).1, a.serial = q.serial) ∨
      ⟨q, .Dropped⟩ ∈ (notifyFrom cb l).2.2 := by
  have hstays : ∀ l' : List Queued, q ∈ l' →
      (∃ a ∈ kept cb l', a.serial = q.serial) ∨ ⟨q, .Dropped⟩ ∈ l'.map (offer cb) := by
    intro l' hq
    by_cases hdropped : (cb q).status = .Dropped
    · exact Or.inr (List.mem_map.2 ⟨q, hq, by rw [offer, hdropped]⟩)
    · exact Or.inl ⟨answered cb q, mem_kept.2 ⟨q, hq, hdropped, rfl⟩, rfl⟩
  rcases notifyFrom_cases cb l with
    ⟨_, hlooked⟩ | ⟨ahead, first, rest, rfl, _, _, hlooked⟩
  · rw [hlooked]
    exact hstays l hq
  · rw [hlooked, List.map_append]
    rcases List.mem_append.1 hq with hq | hq
    · rcases hstays ahead hq with ⟨a, ha, hserial⟩ | hdropped
      · exact Or.inl ⟨a, List.mem_append_left _ ha, hserial⟩
      · exact Or.inr (List.mem_append_left _ hdropped)
    · rcases List.mem_cons.1 hq with rfl | hq
      · exact Or.inl ⟨answered cb q, by simp, rfl⟩
      · exact Or.inl ⟨q, by simp [hq], rfl⟩

theorem notify_keeps (hq : q ∈ r.actions) :
    (∃ a ∈ (r.notifyAboutNextAction cb).1.actions, a.serial = q.serial) ∨
      ⟨q, .Dropped⟩ ∈ (r.notifyAboutNextAction cb).2 := notifyFrom_keeps hq

theorem process_keeps (hq : q ∈ r.actions) :
    (∃ a ∈ (r.process cb).1.actions, a.serial = q.serial) ∨
      ⟨q, .Dropped⟩ ∈ (r.process cb).2 := by
  rw [process]
  split
  case isTrue => exact Or.inl ⟨q, hq, rfl⟩
  case isFalse => exact notify_keeps hq

theorem onFinished_keeps (hq : q ∈ r.actions) (hunexpired : q.isExpired now = false) :
    (∃ a ∈ (r.onFinished cb now).1.actions, a.serial = q.serial) ∨
      ⟨q, .Dropped⟩ ∈ (r.onFinished cb now).2 := by
  have hstays : q ∈ (r.removeExpiredActions now).actions :=
    List.mem_filter.2 ⟨hq, by simp [hunexpired]⟩
  simp only [onFinished]
  split
  case isTrue => exact Or.inl ⟨q, hstays, rfl⟩
  case isFalse => exact notify_keeps hstays

/-- Nothing comes into the queue in the loop. -/
theorem notifyFrom_from {a : Queued} (ha : a ∈ (notifyFrom cb l).1) :
    ∃ q ∈ l, q.serial = a.serial := by
  have hfrom : ∀ l' : List Queued, a ∈ kept cb l' → ∃ q ∈ l', q.serial = a.serial := by
    intro l' ha
    obtain ⟨q, hq, _, rfl⟩ := mem_kept.1 ha
    exact ⟨q, hq, rfl⟩
  rcases notifyFrom_cases cb l with
    ⟨_, hlooked⟩ | ⟨ahead, first, rest, rfl, _, _, hlooked⟩
  · rw [hlooked] at ha
    exact hfrom l ha
  · rw [hlooked] at ha
    rcases List.mem_append.1 ha with ha | ha
    · obtain ⟨q, hq, hserial⟩ := hfrom ahead ha
      exact ⟨q, List.mem_append_left _ hq, hserial⟩
    · rcases List.mem_cons.1 ha with rfl | ha
      · exact ⟨first, by simp, rfl⟩
      · exact ⟨a, by simp [ha], rfl⟩

theorem onFinished_from {a : Queued} (ha : a ∈ (r.onFinished cb now).1.actions) :
    ∃ q ∈ r.actions.filter (fun q => !q.isExpired now), q.serial = a.serial := by
  simp only [onFinished] at ha
  split at ha
  case isTrue => exact ⟨a, ha, rfl⟩
  case isFalse => exact notifyFrom_from ha

/-- The offers are of actions in the queue. -/
theorem notifyFrom_offers {o : Offer} (ho : o ∈ (notifyFrom cb l).2.2) : o.action ∈ l := by
  rcases notifyFrom_cases cb l with
    ⟨_, hlooked⟩ | ⟨ahead, first, rest, rfl, _, _, hlooked⟩
  · rw [hlooked] at ho
    obtain ⟨q, hq, rfl⟩ := List.mem_map.1 ho
    exact hq
  · rw [hlooked] at ho
    obtain ⟨q, hq, rfl⟩ := List.mem_map.1 ho
    show q ∈ ahead ++ first :: rest
    rcases List.mem_append.1 hq with hq | hq
    · exact List.mem_append_left _ hq
    · simp [List.mem_singleton.1 hq]

theorem onFinished_offers {o : Offer} (ho : o ∈ (r.onFinished cb now).2) :
    o.action ∈ r.actions.filter (fun q => !q.isExpired now) := by
  simp only [onFinished] at ho
  split at ho
  case isTrue => exact absurd ho List.not_mem_nil
  case isFalse => exact notifyFrom_offers ho

/-! ## The pending action -/

/-- The pointer is to an element of the queue, and splits it. -/
theorem split_of_pending (h : r.getPendingAction = some q) :
    ∃ i ahead rest, r.actionInProgress = some i ∧ r.actions.take i = ahead ∧
      r.actions = ahead ++ q :: rest := by
  obtain ⟨i, hi, hq⟩ := Option.bind_eq_some_iff.1 h
  obtain ⟨hlt, rfl⟩ := List.getElem?_eq_some_iff.1 hq
  refine ⟨i, _, r.actions.drop (i + 1), hi, rfl, ?_⟩
  rw [List.getElem_cons_drop hlt, List.take_append_drop]

theorem mem_of_pending (h : r.getPendingAction = some q) : q ∈ r.actions := by
  obtain ⟨i, _, hq⟩ := Option.bind_eq_some_iff.1 h
  exact List.mem_of_getElem? hq

/-- What holds of the queue, the number of actions enqueued and the log of the offers. -/
structure Sound (r : ActionsRegistry) (n : Nat) (log : List Offer) : Prop where
  sorted : (r.actions.map (·.serial)).Pairwise (· < ·)
  below : ∀ q ∈ r.actions, q.serial < n
  logged : ∀ serial ∈ serials .Accepted log, serial < n
  pending : r.hasPendingAction →
    ∃ p ∈ r.getPendingAction, p.serial ∈ serials .Accepted log
  unaccepted : ∀ q ∈ r.actions, q.serial ∈ serials .Accepted log →
    ∃ p ∈ r.getPendingAction, p.serial = q.serial
  passed : ∀ q ∈ r.actions, ∀ later ∈ serials .Accepted log, q.serial < later →
    q.serial ∈ serials .Skipped log
  once : (serials .Accepted log).Nodup
  ordered : (neverSkipped log).Pairwise (· < ·)

namespace Sound

/-- Two elements of the queue that came with one call are one. -/
theorem eq_of_serial {p : Queued} (h : r.Sound n log) (hp : p ∈ r.actions) (hq : q ∈ r.actions)
    (hserial : p.serial = q.serial) : p = q :=
  List.inj_on_of_nodup_map (h.sorted.imp Nat.ne_of_lt) hp hq hserial

/-- The serial numbers on both sides of an element. -/
theorem around {ahead rest : List Queued} (h : r.Sound n log)
    (hactions : r.actions = ahead ++ q :: rest) :
    (∀ a ∈ ahead, a.serial < q.serial) ∧ ∀ b ∈ rest, q.serial < b.serial := by
  have hsorted := h.sorted
  rw [hactions, List.map_append, List.map_cons, List.pairwise_append,
    List.pairwise_cons] at hsorted
  obtain ⟨_, ⟨hafter, _⟩, hbefore⟩ := hsorted
  exact ⟨fun a ha => hbefore _ (List.mem_map_of_mem ha) _ List.mem_cons_self,
    fun b hb => hafter _ (List.mem_map_of_mem hb)⟩

theorem init : Sound ⟨[], none⟩ 0 [] := by
  constructor <;> simp [hasPendingAction, serials, neverSkipped]

/-- The pointer outlives `push_back`. -/
theorem getPendingAction_addAction {action : Queued} (h : r.Sound n log)
    (hhas : r.hasPendingAction) :
    (r.addAction action).getPendingAction = r.getPendingAction := by
  obtain ⟨p, hp, _⟩ := h.pending hhas
  obtain ⟨i, hi, hq⟩ := Option.bind_eq_some_iff.1 hp
  obtain ⟨hlt, _⟩ := List.getElem?_eq_some_iff.1 hq
  simp [getPendingAction, ActionsRegistry.addAction, hi, List.getElem?_append_left hlt]

/-- A new action at the end. -/
theorem addAction {action : ActionEntry} (h : r.Sound n log) :
    (r.addAction ⟨action, n⟩).Sound (n + 1) log := by
  have hpending : r.hasPendingAction →
      (r.addAction ⟨action, n⟩).getPendingAction = r.getPendingAction :=
    getPendingAction_addAction h
  have hnew : n ∉ serials .Accepted log := fun hn => Nat.lt_irrefl n (h.logged n hn)
  constructor
  case sorted =>
      simp only [ActionsRegistry.addAction, List.map_append, List.pairwise_append]
      refine ⟨h.sorted, List.pairwise_singleton _ _, ?_⟩
      intro a ha b hb
      obtain ⟨q, hq, rfl⟩ := List.mem_map.1 ha
      obtain rfl := List.mem_singleton.1 hb
      exact h.below q hq
  case below =>
      intro q hq
      rcases List.mem_append.1 hq with hq | hq
      · exact Nat.lt_succ_of_lt (h.below q hq)
      · rw [List.mem_singleton.1 hq]
        exact Nat.lt_succ_self n
  case logged => exact fun serial hserial => Nat.lt_succ_of_lt (h.logged serial hserial)
  case pending =>
      intro hhas
      rw [hpending hhas]
      exact h.pending hhas
  case unaccepted =>
      intro q hq haccepted
      rcases List.mem_append.1 hq with hq | hq
      · obtain ⟨p, hp, hserial⟩ := h.unaccepted q hq haccepted
        refine ⟨p, ?_, hserial⟩
        rwa [hpending]
        exact Option.isSome_of_mem (Option.bind_eq_some_iff.1 hp).choose_spec.1
      · rw [List.mem_singleton.1 hq] at haccepted
        exact absurd haccepted hnew
  case passed =>
      intro q hq later hlater hlt
      rcases List.mem_append.1 hq with hq | hq
      · exact h.passed q hq later hlater hlt
      · rw [List.mem_singleton.1 hq] at hlt
        exact absurd (h.logged later hlater) (Nat.not_lt_of_lt hlt)
  case once => exact h.once
  case ordered => exact h.ordered

/-- Some actions leave the queue, and the pending one with them. -/
theorem remove (h : r.Sound n log) (hsub : actions.Sublist r.actions)
    (hgone : ∀ p ∈ r.getPendingAction, ∀ q ∈ actions, q.serial ≠ p.serial) :
    Sound ⟨actions, none⟩ n log := by
  constructor
  case sorted => exact h.sorted.sublist (hsub.map _)
  case below => exact fun q hq => h.below q (hsub.subset hq)
  case logged => exact h.logged
  case pending => simp [hasPendingAction]
  case unaccepted =>
      intro q hq haccepted
      obtain ⟨p, hp, hserial⟩ := h.unaccepted q (hsub.subset hq) haccepted
      exact absurd hserial.symm (hgone p hp q hq)
  case passed => exact fun q hq => h.passed q (hsub.subset hq)
  case once => exact h.once
  case ordered => exact h.ordered

/-- With no action pending, none in the queue has been accepted. -/
theorem waiting (h : r.Sound n log) (hidle : r.actionInProgress = none) (hq : q ∈ r.actions) :
    q.serial ∉ serials .Accepted log := by
  intro haccepted
  obtain ⟨p, hp, _⟩ := h.unaccepted q hq haccepted
  simp [getPendingAction, hidle] at hp

/-- What is left of the queue in the loop is in order, and from it. -/
theorem of_sublist (h : r.Sound n log)
    (hsub : (actions.map (·.serial)).Sublist (r.actions.map (·.serial))) :
    (actions.map (·.serial)).Pairwise (· < ·) ∧
      ∀ a ∈ actions, ∃ b ∈ r.actions, b.serial = a.serial :=
  ⟨h.sorted.sublist hsub, fun _ ha => List.mem_map.1 (hsub.subset (List.mem_map_of_mem ha))⟩

/-- Nothing accepted: the queue with what is skipped. -/
theorem notify_none (h : r.Sound n log) (hidle : r.actionInProgress = none)
    (hpassed : Passed cb r.actions) :
    Sound ⟨kept cb r.actions, none⟩ n (log ++ r.actions.map (offer cb)) := by
  obtain ⟨hsorted, hfrom⟩ := h.of_sublist (@kept_sublist cb r.actions)
  have hlog : serials .Accepted (log ++ r.actions.map (offer cb)) = serials .Accepted log := by
    rw [serials_append, accepted_of_passed hpassed, List.append_nil]
  constructor
  case sorted => exact hsorted
  case below =>
      intro q hq
      obtain ⟨b, hb, hserial⟩ := hfrom q hq
      rw [← hserial]
      exact h.below b hb
  case logged => rw [hlog]; exact h.logged
  case pending => simp [hasPendingAction]
  case unaccepted =>
      intro q hq haccepted
      obtain ⟨b, hb, hserial⟩ := hfrom q hq
      rw [hlog, ← hserial] at haccepted
      exact absurd haccepted (h.waiting hidle hb)
  case passed =>
      intro q hq _ _ _
      rw [serials_append]
      exact List.mem_append_right _ (skipped_of_kept hpassed hq)
  case once => rw [hlog]; exact h.once
  case ordered =>
      rw [neverSkipped_append, accepted_of_passed hpassed, List.filter_nil, List.append_nil]
      exact h.ordered.filter _

/-- An action of the queue accepted for the first time is later than all accepted before that
were not skipped, unless it was skipped itself. -/
theorem ordered_accept {log' : List Offer} (h : r.Sound n log)
    (hidle : r.actionInProgress = none) (hq : q ∈ r.actions)
    (haccepted : serials .Accepted log' = [q.serial]) :
    (neverSkipped (log ++ log')).Pairwise (· < ·) := by
  rw [neverSkipped_append, haccepted, List.pairwise_append]
  refine ⟨h.ordered.filter _, (List.pairwise_singleton _ _).filter _, ?_⟩
  intro a ha b hb
  obtain ⟨hb, hunskipped⟩ := List.mem_filter.1 hb
  obtain rfl := List.mem_singleton.1 hb
  have hbefore := (List.mem_filter.1 (List.mem_filter.1 ha).1).1
  -- An action in the queue is passed over only if it is skipped.
  rcases Nat.lt_trichotomy a q.serial with hless | rfl | hless
  · exact hless
  · exact absurd hbefore (h.waiting hidle hq)
  · have hskipped := h.passed q hq a hbefore hless
    simp [hskipped] at hunskipped

/-- An action is accepted: those ahead of it have been skipped. -/
theorem notify_some {ahead rest : List Queued} (h : r.Sound n log)
    (hidle : r.actionInProgress = none) (hactions : r.actions = ahead ++ q :: rest)
    (hpassed : Passed cb ahead) (hq : (cb q).status = .Accepted) :
    Sound ⟨kept cb ahead ++ answered cb q :: rest, some (kept cb ahead).length⟩ n
      (log ++ (ahead ++ [q]).map (offer cb)) := by
  have haccepted := accepted_of_first hpassed hq
  have hlog : serials .Accepted (log ++ (ahead ++ [q]).map (offer cb)) =
      serials .Accepted log ++ [q.serial] := by
    rw [serials_append, haccepted]
  have hmem : q ∈ r.actions := by simp [hactions]
  have hfresh := h.waiting hidle hmem
  obtain ⟨_, hafter⟩ := h.around hactions
  have hsub : ((kept cb ahead ++ answered cb q :: rest).map (·.serial)).Sublist
      (r.actions.map (·.serial)) := by
    rw [hactions, List.map_append, List.map_append]
    exact kept_sublist.append (List.Sublist.refl _)
  obtain ⟨hsorted, hfrom⟩ := h.of_sublist hsub
  have hpending : getPendingAction
      ⟨kept cb ahead ++ answered cb q :: rest, some (kept cb ahead).length⟩ =
        some (answered cb q) := by
    simp [getPendingAction]
  constructor
  case sorted => exact hsorted
  case below =>
      intro a ha
      obtain ⟨b, hb, hserial⟩ := hfrom a ha
      rw [← hserial]
      exact h.below b hb
  case logged =>
      rw [hlog]
      intro serial hserial
      rcases List.mem_append.1 hserial with hserial | hserial
      · exact h.logged serial hserial
      · rw [List.mem_singleton.1 hserial]
        exact h.below q hmem
  case pending =>
      intro _
      refine ⟨answered cb q, hpending, ?_⟩
      rw [hlog]
      exact List.mem_append_right _ (List.mem_singleton.2 rfl)
  case unaccepted =>
      intro a ha haccepted
      rw [hpending]
      rw [hlog, List.mem_append, List.mem_singleton] at haccepted
      rcases haccepted with haccepted | hserial
      · obtain ⟨b, hb, hserial⟩ := hfrom a ha
        rw [← hserial] at haccepted
        exact absurd haccepted (h.waiting hidle hb)
      · exact ⟨answered cb q, rfl, hserial.symm⟩
  case passed =>
      intro a ha later hlater hless
      rw [serials_append]
      rw [hlog, List.mem_append, List.mem_singleton] at hlater
      rcases List.mem_append.1 ha with ha | ha
      · refine List.mem_append_right _ ?_
        rw [List.map_append, serials_append]
        exact List.mem_append_left _ (skipped_of_kept hpassed ha)
      · refine List.mem_append_left _ ?_
        rcases List.mem_cons.1 ha with rfl | ha
        · rcases hlater with hlater | rfl
          · exact h.passed q hmem later hlater hless
          · exact absurd hless (Nat.lt_irrefl _)
        · rcases hlater with hlater | rfl
          · exact h.passed a (by simp [hactions, ha]) later hlater hless
          · exact absurd hless (Nat.lt_asymm (hafter a ha))
  case once =>
      rw [hlog, List.nodup_append]
      refine ⟨h.once, List.nodup_singleton _, ?_⟩
      intro a ha b hb heq
      rw [heq, List.mem_singleton.1 hb] at ha
      exact hfresh ha
  case ordered => exact h.ordered_accept hidle hmem haccepted

theorem notify (h : r.Sound n log) (hidle : r.actionInProgress = none) :
    (r.notifyAboutNextAction cb).1.Sound n (log ++ (r.notifyAboutNextAction cb).2) := by
  simp only [notifyAboutNextAction, hidle, Option.or_none]
  rcases notifyFrom_cases cb r.actions with
    ⟨hpassed, hlooked⟩ | ⟨ahead, q, rest, hactions, hpassed, hq, hlooked⟩
  · rw [hlooked]
    exact h.notify_none hidle hpassed
  · rw [hlooked]
    exact h.notify_some hidle hactions hpassed hq

theorem process (h : r.Sound n log) :
    (r.process cb).1.Sound n (log ++ (r.process cb).2) := by
  rw [ActionsRegistry.process]
  split
  case isTrue => simpa using h
  case isFalse hidle => exact h.notify (by simpa [hasPendingAction] using hidle)

theorem onFinished (h : (r.removeExpiredActions now).Sound n log)
    (hidle : r.actionInProgress = none) :
    (r.onFinished cb now).1.Sound n (log ++ (r.onFinished cb now).2) := by
  simp only [ActionsRegistry.onFinished]
  split
  case isTrue => simpa using h
  case isFalse => exact h.notify hidle

end Sound

/-! ## finished -/

/-- With nothing ahead that equals it the pending action is erased. -/
theorem erased_pending {p : Queued} (hp : r.getPendingAction = some p)
    (hclear : ∀ i ∈ r.actionInProgress, ∀ a ∈ r.actions.take i,
      a.operatorEq p.toActionEntry = false) :
    ∃ ahead rest, r.actions = ahead ++ p :: rest ∧
      (r.actions.eraseP fun a => a.operatorEq p.toActionEntry) = ahead ++ rest := by
  obtain ⟨i, ahead, rest, hi, rfl, hsplit⟩ := split_of_pending hp
  have hnone := hclear i hi
  generalize r.actions.take i = ahead at hsplit hnone
  refine ⟨ahead, rest, hsplit, ?_⟩
  rw [hsplit, List.eraseP_append_right _ (by simpa using hnone)]
  simp [ActionEntry.operatorEq]

/-- An element erased in place of the pending one expires with it. -/
theorem isExpired_of_operatorEq {a b : ActionEntry} (h : a.operatorEq b = true) :
    a.isExpired now = b.isExpired now := by
  have hcreated : a.createdAt = b.createdAt := (of_decide_eq_true h).2.1
  rw [ActionEntry.isExpired, ActionEntry.isExpired, hcreated]

/-- The pending action is erased, or it is removed because it has expired. -/
theorem finished_gone {p : Queued} (h : r.Sound n log) (hp : r.getPendingAction = some p)
    (hclear : ∀ i ∈ r.actionInProgress, p.isExpired now = false →
      ∀ ahead ∈ r.actions.take i, ahead.operatorEq p.toActionEntry = false) :
    ∀ q ∈ (r.actions.eraseP fun a => a.operatorEq p.toActionEntry).filter
        (fun a => !a.isExpired now), q.serial ≠ p.serial := by
  intro q hq hserial
  obtain ⟨hq, hunexpired⟩ := List.mem_filter.1 hq
  obtain rfl := h.eq_of_serial (List.mem_of_mem_eraseP hq) (mem_of_pending hp) hserial
  obtain ⟨ahead, rest, hsplit, herased⟩ :=
    erased_pending hp fun i hi => hclear i hi (by simpa using hunexpired)
  obtain ⟨hbefore, hafter⟩ := h.around hsplit
  rw [herased] at hq
  rcases List.mem_append.1 hq with hq | hq
  · exact Nat.lt_irrefl _ (hbefore q hq)
  · exact Nat.lt_irrefl _ (hafter q hq)

/-- No other is erased unless it has expired. -/
theorem finished_others {p : Queued} (hp : r.getPendingAction = some p)
    (hclear : ∀ i ∈ r.actionInProgress, p.isExpired now = false →
      ∀ ahead ∈ r.actions.take i, ahead.operatorEq p.toActionEntry = false)
    (hq : q ∈ r.actions) (hother : q ≠ p) (hunexpired : q.isExpired now = false) :
    q ∈ r.actions.eraseP fun a => a.operatorEq p.toActionEntry := by
  cases hequal : q.operatorEq p.toActionEntry with
  | false => exact (List.mem_eraseP_of_neg (by simp [hequal])).2 hq
  | true =>
      rw [isExpired_of_operatorEq hequal] at hunexpired
      obtain ⟨ahead, rest, hsplit, herased⟩ :=
        erased_pending hp fun i hi => hclear i hi hunexpired
      rw [herased]
      rw [hsplit] at hq
      simpa [hother] using hq

/-- An action ahead that equals the pending one is erased in its place. -/
theorem finished_wrong {p : Queued} {i : Nat} (h : r.Sound n log)
    (hp : r.getPendingAction = some p) (hi : i ∈ r.actionInProgress)
    (hahead : ∃ ahead ∈ r.actions.take i, ahead.operatorEq p.toActionEntry = true) :
    ∃ a ∈ r.actions, a.operatorEq p.toActionEntry = true ∧ a.serial ≠ p.serial ∧
      ∀ q ∈ r.actions.eraseP fun a => a.operatorEq p.toActionEntry, q.serial ≠ a.serial := by
  obtain ⟨j, ahead, rest, hj, htake, hsplit⟩ := split_of_pending hp
  obtain rfl : i = j := Option.some.inj (hi.symm.trans hj)
  rw [htake] at hahead
  have hany : ahead.any (fun a => a.operatorEq p.toActionEntry) = true := by
    simpa using hahead
  obtain ⟨b, hb, hequal⟩ := hahead
  obtain ⟨a, before, after, _, ha, rfl, herased⟩ :=
    @List.exists_of_eraseP _ (fun a : Queued => a.operatorEq p.toActionEntry) _ _ hb hequal
  have hwhole : r.actions = before ++ a :: (after ++ p :: rest) := by
    rw [hsplit]
    simp
  have hleft : (r.actions.eraseP fun a => a.operatorEq p.toActionEntry) =
      before ++ (after ++ p :: rest) := by
    rw [hsplit, List.eraseP_append, if_pos hany, herased]
    simp
  obtain ⟨hbefore, hafter⟩ := h.around hwhole
  refine ⟨a, by simp [hwhole], ha, ?_, ?_⟩
  · exact Nat.ne_of_lt (hafter p (by simp))
  · intro q hq
    rw [hleft] at hq
    rcases List.mem_append.1 hq with hq | hq
    · exact Nat.ne_of_lt (hbefore q hq)
    · exact Nat.ne_of_gt (hafter q hq)

end ActionsRegistry

/-! ## Sessions -/

namespace Session

open ActionsRegistry

variable {s : Session} {c : Call} {calls : List Call}

def Sound (s : Session) : Prop := s.registry.Sound s.enqueued s.log

/-- A call keeps the actions apart: one is pending, `finished` takes it and no other out of the
queue, and the others leave it dropped or expired. -/
structure Executes (s : Session) (c : Call) : Prop where
  held : c.op ≠ .finished → s.registry.hasPendingAction →
    s.offers c = [] ∧
      (s.step c).registry.getPendingAction = s.registry.getPendingAction
  pending : (s.step c).registry.hasPendingAction →
    ∃ p ∈ (s.step c).registry.getPendingAction,
      p.serial ∈ serials .Accepted (s.step c).log
  only : ∀ q ∈ (s.step c).registry.actions, q.serial ∈ serials .Accepted (s.step c).log →
    ∃ p ∈ (s.step c).registry.getPendingAction, p.serial = q.serial
  removes : c.op = .finished → ∀ p ∈ s.registry.getPendingAction,
    ∀ q ∈ (s.step c).registry.actions, q.serial ≠ p.serial
  keeps : ∀ q ∈ s.registry.actions ++ s.added c,
    (∃ a ∈ (s.step c).registry.actions, a.serial = q.serial) ∨
      ⟨q, .Dropped⟩ ∈ s.offers c ∨
      c.op = .finished ∧ (q ∈ s.registry.getPendingAction ∨ q.isExpired c.now)

/-- If the pending action finishes before it expires, no action ahead of it in the queue equals
it. -/
def Clear (s : Session) (c : Call) : Prop :=
  c.op = .finished → ∀ i ∈ s.registry.actionInProgress, ∀ p ∈ s.registry.getPendingAction,
    p.isExpired c.now = false →
      ∀ ahead ∈ s.registry.actions.take i, ahead.operatorEq p.toActionEntry = false

/-- A call of `finished`, with what is pending. -/
theorem call_finished {p : Queued} (hop : c.op = .finished)
    (hp : s.registry.getPendingAction = some p) :
    s.call c = onFinished c.nextActionReady c.now
      ⟨s.registry.actions.eraseP fun a => a.operatorEq p.toActionEntry, none⟩ := by
  simp [call, hop, finished, hp]

theorem removes_of_clear (h : s.Sound) (hclear : s.Clear c) (hop : c.op = .finished)
    (p : Queued) (hp : p ∈ s.registry.getPendingAction) :
    ∀ q ∈ (s.step c).registry.actions, q.serial ≠ p.serial := by
  intro q hq
  rw [step, call_finished hop hp] at hq
  obtain ⟨a, ha, hserial⟩ := onFinished_from hq
  rw [← hserial]
  exact finished_gone h hp (fun i hi => hclear hop i hi p hp) a ha

theorem sound_step (h : s.Sound) (hclear : s.Clear c) : (s.step c).Sound := by
  rw [Sound, step, offers, added]
  cases hop : c.op with
  | enqueue action =>
      simp only [call, hop]
      exact (ActionsRegistry.Sound.addAction h).process
  | process =>
      simp only [call, hop]
      exact ActionsRegistry.Sound.process h
  | finished =>
      cases hp : s.registry.getPendingAction with
      | none => simpa [call, hop, finished, hp, Sound] using h
      | some p =>
          rw [call_finished hop hp]
          -- Erasing and expiry together take the pending action out.
          have hgone := finished_gone h hp (fun i hi => hclear hop i hi p hp)
          have hrest := ActionsRegistry.Sound.remove h
            (List.filter_sublist.trans List.eraseP_sublist) (by
              intro p' hp'
              rw [hp] at hp'
              cases hp'
              exact hgone)
          exact ActionsRegistry.Sound.onFinished hrest rfl

/-- Only `finished` touches the pending action. -/
theorem held_of_pending (h : s.Sound) (hop : c.op ≠ .finished)
    (hhas : s.registry.hasPendingAction) :
    s.offers c = [] ∧
      (s.step c).registry.getPendingAction = s.registry.getPendingAction := by
  rw [offers, step]
  cases hc : c.op with
  | enqueue action =>
      have hadded : (s.registry.addAction ⟨action, s.enqueued⟩).hasPendingAction := hhas
      simp only [call, hc, enqueue, process, hadded, if_true, true_and]
      exact ActionsRegistry.Sound.getPendingAction_addAction h hhas
  | process => simp [call, hc, process, hhas]
  | finished => exact absurd hc hop

/-- Who is not erased leaves the queue dropped or expired. -/
theorem keeps_of_mem {q : Queued} (hq : q ∈ s.registry.actions ++ s.added c)
    (hmem : c.op = .finished → q.isExpired c.now = false → ∀ p ∈ s.registry.getPendingAction,
      q ∈ s.registry.actions.eraseP fun a => a.operatorEq p.toActionEntry) :
    (∃ a ∈ (s.step c).registry.actions, a.serial = q.serial) ∨
      ⟨q, .Dropped⟩ ∈ s.offers c ∨ c.op = .finished ∧ q.isExpired c.now := by
  rw [offers, step]
  cases hc : c.op with
  | enqueue action =>
      simp only [added, hc] at hq
      simp only [call, hc, enqueue]
      have hkeeps := @process_keeps c.nextActionReady
        (s.registry.addAction ⟨action, s.enqueued⟩) q hq
      rcases hkeeps with hstays | hdropped
      · exact Or.inl hstays
      · exact Or.inr (Or.inl hdropped)
  | process =>
      simp only [added, hc, List.append_nil] at hq
      simp only [call, hc]
      rcases process_keeps hq with hstays | hdropped
      · exact Or.inl hstays
      · exact Or.inr (Or.inl hdropped)
  | finished =>
      simp only [added, hc, List.append_nil] at hq
      cases hp : s.registry.getPendingAction with
      | none => exact Or.inl ⟨q, by simpa [call, hc, finished, hp] using hq, rfl⟩
      | some p =>
          rw [call_finished hc hp]
          cases hexpired : q.isExpired c.now with
          | true => exact Or.inr (Or.inr ⟨rfl, rfl⟩)
          | false =>
              have hkeeps := @onFinished_keeps c.nextActionReady c.now
                ⟨s.registry.actions.eraseP fun a => a.operatorEq p.toActionEntry, none⟩ q
                (hmem hc hexpired p hp) hexpired
              rcases hkeeps with hstays | hdropped
              · exact Or.inl hstays
              · exact Or.inr (Or.inl hdropped)

/-- Under the rule a call does what it should. -/
theorem executes_of_clear (h : s.Sound) (hclear : s.Clear c) : s.Executes c := by
  have hsound := sound_step h hclear
  refine ⟨held_of_pending h, hsound.pending, hsound.unaccepted, removes_of_clear h hclear, ?_⟩
  intro q hq
  by_cases hpending : c.op = .finished ∧ q ∈ s.registry.getPendingAction
  · exact Or.inr (Or.inr ⟨hpending.1, Or.inl hpending.2⟩)
  · have hmem : c.op = .finished → q.isExpired c.now = false →
        ∀ p ∈ s.registry.getPendingAction,
          q ∈ s.registry.actions.eraseP fun a => a.operatorEq p.toActionEntry := by
      intro hop hunexpired p hp
      have hwaits : q ∈ s.registry.actions := by simpa [added, hop] using hq
      refine finished_others hp (fun i hi => hclear hop i hi p hp) hwaits ?_ hunexpired
      rintro rfl
      exact hpending ⟨hop, hp⟩
    rcases keeps_of_mem hq hmem with hstays | hdropped | ⟨hop, hexpired⟩
    · exact Or.inl hstays
    · exact Or.inr (Or.inl hdropped)
    · exact Or.inr (Or.inr ⟨hop, Or.inr hexpired⟩)

/-- Against it an action leaves the queue in the place of the pending one. -/
theorem clear_of_executes (h : s.Sound) (hexecutes : s.Executes c) : s.Clear c := by
  intro hop i hi p hp hunexpired ahead hahead
  by_contra hequal
  obtain ⟨a, ha, hsame, hdistinct, herased⟩ :=
    finished_wrong h hp hi ⟨ahead, hahead, by simpa using hequal⟩
  rcases hexecutes.keeps a (List.mem_append_left _ ha) with
    ⟨q, hq, hserial⟩ | hdropped | ⟨_, hpending | hexpired⟩
  · rw [step, call_finished hop hp] at hq
    obtain ⟨b, hb, hfrom⟩ := onFinished_from hq
    exact herased b (List.mem_filter.1 hb).1 (hfrom.trans hserial)
  · rw [offers, call_finished hop hp] at hdropped
    have hoffered := onFinished_offers hdropped
    exact herased a (List.mem_filter.1 hoffered).1 rfl
  · rw [Option.mem_def.1 hp] at hpending
    cases hpending
    exact hdistinct rfl
  · rw [isExpired_of_operatorEq hsame, hunexpired] at hexpired
    cases hexpired

/-- In a run the actions are executed once and in order exactly when no action ahead of a
pending one equals it when that finishes. -/
theorem executes_iff_clear :
    (EveryStep Executes step start calls ∧
      (serials .Accepted (start.run calls).log).Nodup ∧
        (neverSkipped (start.run calls).log).Pairwise (· < ·)) ↔
      EveryStep Clear step start calls := by
  have hiff := @everyStep_congr Session Call Sound Executes Clear step
    (fun s c h => ⟨clear_of_executes h, executes_of_clear h⟩)
    (fun s c h hclear => sound_step h hclear) calls start ActionsRegistry.Sound.init
  constructor
  · intro ⟨hexecutes, _⟩
    exact hiff.1 hexecutes
  · intro hclear
    have hend := (@everyStep_of_rule Session Call Sound Executes Clear step
      (fun s c h hclear => executes_of_clear h hclear)
      (fun s c h hclear => sound_step h hclear) calls start
      ActionsRegistry.Sound.init hclear).2
    exact ⟨hiff.2 hclear, hend.once, hend.ordered⟩

/-- Accepts all actions but the first. -/
def skipFirst : OnNextActionReadyCallback := fun action =>
  if action.serial = 0 then ⟨.Skipped, none, ""⟩ else ⟨.Accepted, none, ""⟩

/-- Two actions of one moment, the first skipped: the second is accepted, and again when it has
finished. -/
theorem accepted_twice :
    ¬ (EveryStep Executes step start
        [⟨.enqueue ⟨100, none, "", 0⟩, 0, skipFirst⟩,
          ⟨.enqueue ⟨100, none, "", 0⟩, 0, skipFirst⟩, ⟨.finished, 1, skipFirst⟩] ∧
      (serials .Accepted (start.run
        [⟨.enqueue ⟨100, none, "", 0⟩, 0, skipFirst⟩,
          ⟨.enqueue ⟨100, none, "", 0⟩, 0, skipFirst⟩, ⟨.finished, 1, skipFirst⟩]).log).Nodup ∧
        (neverSkipped (start.run
          [⟨.enqueue ⟨100, none, "", 0⟩, 0, skipFirst⟩,
            ⟨.enqueue ⟨100, none, "", 0⟩, 0, skipFirst⟩,
            ⟨.finished, 1, skipFirst⟩]).log).Pairwise (· < ·)) := by
  intro ⟨_, honce, _⟩
  revert honce
  decide

end Session

end MuditaOS.Appmgr

/-! ## Expired actions

`finished` removes what has expired before it looks for the next action, `enqueue` and `process`
do not. There an expired action is offered unless one ahead of it is accepted.
-/

namespace MuditaOS.Appmgr

open Lib

variable {cb : OnNextActionReadyCallback} {now : Int}

namespace ActionsRegistry

variable {r : ActionsRegistry} {l : List Queued} {o : Offer}

/-- An action is offered if nothing ahead of it is accepted. -/
theorem offered_iff :
    o ∈ (notifyFrom cb l).2.2 ↔
      ∃ ahead q rest, l = ahead ++ q :: rest ∧ Passed cb ahead ∧ o = offer cb q := by
  induction l with
  | nil => simp [notifyFrom]
  | cons a l ih =>
      have hsplit : (∃ ahead q rest, a :: l = ahead ++ q :: rest ∧ Passed cb ahead ∧
          o = offer cb q) ↔
          o = offer cb a ∨ (cb a).status ≠ .Accepted ∧
            ∃ ahead q rest, l = ahead ++ q :: rest ∧ Passed cb ahead ∧ o = offer cb q := by
        constructor
        · rintro ⟨ahead, q, rest, hl, hpassed, rfl⟩
          cases ahead with
          | nil =>
              obtain ⟨rfl, rfl⟩ := List.cons.inj hl
              exact Or.inl rfl
          | cons b ahead =>
              obtain ⟨rfl, rfl⟩ := List.cons.inj hl
              obtain ⟨ha, hpassed⟩ := List.forall_mem_cons.1 hpassed
              exact Or.inr ⟨ha, ahead, q, rest, rfl, hpassed, rfl⟩
        · rintro (rfl | ⟨ha, ahead, q, rest, rfl, hpassed, rfl⟩)
          · exact ⟨[], a, l, rfl, fun _ h => absurd h List.not_mem_nil, rfl⟩
          · exact ⟨a :: ahead, q, rest, rfl, List.forall_mem_cons.2 ⟨ha, hpassed⟩, rfl⟩
      rw [hsplit, ← ih]
      cases hstatus : (cb a).status <;> simp [notifyFrom, hstatus]

end ActionsRegistry

namespace Session

open ActionsRegistry

variable {s : Session} {c : Call} {calls : List Call}

/-- No action is offered that has expired. -/
def Timely (s : Session) (c : Call) : Prop :=
  ∀ o ∈ s.offers c, o.action.isExpired c.now = false

/-- When `enqueue` or `process` looks for the next action, any that has expired has one ahead of
it that is accepted. -/
def Shielded (s : Session) (c : Call) : Prop :=
  c.op ≠ .finished → s.registry.hasPendingAction = false →
    ∀ ahead q rest, s.registry.actions ++ s.added c = ahead ++ q :: rest →
      q.isExpired c.now = true → ∃ a ∈ ahead, (c.nextActionReady a).status = .Accepted

theorem timely_of_finished (hop : c.op = .finished) : s.Timely c := by
  intro o ho
  cases hp : s.registry.getPendingAction with
  | none => simp [offers, call, hop, finished, hp] at ho
  | some p =>
      rw [offers, call_finished hop hp] at ho
      have hoffered := onFinished_offers ho
      simpa using (List.mem_filter.1 hoffered).2

/-- What `enqueue` and `process` offer. -/
theorem offers_idle (hop : c.op ≠ .finished) (hidle : s.registry.hasPendingAction = false) :
    s.offers c = (notifyFrom c.nextActionReady (s.registry.actions ++ s.added c)).2.2 := by
  rw [offers]
  cases hc : c.op with
  | enqueue action =>
      have hadded : (s.registry.addAction ⟨action, s.enqueued⟩).hasPendingAction = false := hidle
      simp only [call, hc, enqueue, process, hadded, added]
      rfl
  | process => simp [call, hc, process, hidle, added, notifyAboutNextAction]
  | finished => exact absurd hc hop

theorem offers_busy (hop : c.op ≠ .finished) (hbusy : s.registry.hasPendingAction = true) :
    s.offers c = [] := by
  rw [offers]
  cases hc : c.op with
  | enqueue action =>
      have hadded : (s.registry.addAction ⟨action, s.enqueued⟩).hasPendingAction = true := hbusy
      simp [call, hc, enqueue, process, hadded]
  | process => simp [call, hc, process, hbusy]
  | finished => exact absurd hc hop

theorem timely_iff_shielded_step : s.Timely c ↔ s.Shielded c := by
  by_cases hop : c.op = .finished
  · exact iff_of_true (timely_of_finished hop) (fun h => absurd hop h)
  cases hidle : s.registry.hasPendingAction with
  | true =>
      refine iff_of_true ?_ ?_
      · intro o ho
        rw [offers_busy hop hidle] at ho
        exact absurd ho List.not_mem_nil
      · intro _ hidle'
        rw [hidle] at hidle'
        cases hidle'
  | false =>
      rw [Timely, offers_idle hop hidle]
      constructor
      · intro htimely _ _ ahead q rest hactions hexpired
        by_contra hnone
        have hpassed : Passed c.nextActionReady ahead :=
          fun a ha haccepted => hnone ⟨a, ha, haccepted⟩
        have hunexpired := htimely (offer c.nextActionReady q)
          (offered_iff.2 ⟨ahead, q, rest, hactions, hpassed, rfl⟩)
        rw [offer, hexpired] at hunexpired
        cases hunexpired
      · intro hshielded o ho
        obtain ⟨ahead, q, rest, hactions, hpassed, rfl⟩ := offered_iff.1 ho
        by_contra hexpired
        obtain ⟨a, ha, haccepted⟩ := hshielded hop hidle ahead q rest hactions
          (by simpa [offer] using hexpired)
        exact hpassed a ha haccepted

/-- In a run no expired action is offered exactly when any that has expired has one ahead of it
that is accepted. -/
theorem timely_iff_shielded :
    EveryStep Timely step start calls ↔ EveryStep Shielded step start calls :=
  @everyStep_congr Session Call (fun _ => True) Timely Shielded step
    (fun _ _ _ => timely_iff_shielded_step) (fun _ _ _ _ => trivial) calls start trivial

/-- The action is skipped when it comes, and accepted 31 seconds later. -/
theorem offered_late :
    ¬ EveryStep Timely step start
      [⟨.enqueue ⟨100, none, "", 0⟩, 0, fun _ => ⟨.Skipped, none, ""⟩⟩,
        ⟨.process, 31 * 1000000000, fun _ => ⟨.Accepted, none, ""⟩⟩] := by
  intro h
  obtain ⟨_, htimely, _⟩ := h
  have hoffered := htimely ⟨⟨⟨100, none, "", 0⟩, 0⟩, .Accepted⟩ (List.mem_singleton.2 rfl)
  revert hoffered
  decide

end Session

end MuditaOS.Appmgr

import MuditaOS.Apps.WindowsPopup

/-!
# The order of the popups

Whatever the filters and the windows do, the requests of one priority leave the queue in the
order in which they were put into it, and none is lost or handled twice. That is because the
first of a priority is taken even if it was a later one that the filter let through: so a
request that the filter holds back is handled, exactly when it stands before one of its own
priority that is let through.
-/

namespace MuditaOS.Apps

open MuditaOS.Lib

def ofPriority (priority : Priority) (request : Request) : Bool := request.priority = priority

theorem toNat_inj {p q : Priority} (h : p.toNat = q.toNat) : p = q := by
  cases p <;> cases q <;> first | rfl | cases h

theorem equivalent_operatorLess {x y : Request} :
    equivalent Request.operatorLess x y = true ↔ x.priority = y.priority := by
  rw [equivalent_iff, Request.operatorLess, Request.operatorLess, decide_eq_false_iff_not,
    decide_eq_false_iff_not]
  refine ⟨fun h => toNat_inj (by omega), fun h => ?_⟩
  rw [h]
  exact ⟨Nat.lt_irrefl _, Nat.lt_irrefl _⟩

theorem isClass_ofPriority (priority : Priority) :
    IsClass Request.operatorLess (ofPriority priority) := by
  intro x y hx
  have hx : x.priority = priority := of_decide_eq_true hx
  rw [equivalent_operatorLess, hx, ofPriority, decide_eq_true_eq, eq_comm]

namespace WindowsPopupQueue

variable {queue rest : WindowsPopupQueue} {isPermitted : PopupRequestParams → Bool}
  {taken : Request}

theorem popRequest_eq_some (h : queue.popRequest isPermitted = some (taken, rest)) :
    ∃ val, (queue.requests.entries.find? fun val => isPermitted val.params) = some val ∧
      queue.requests.extract val = some (taken, rest.requests) := by
  rw [popRequest] at h
  split at h
  · next val hfind =>
      obtain ⟨⟨request, requests⟩, hextract, heq⟩ := Option.map_eq_some_iff.1 h
      cases heq
      exact ⟨val, hfind, hextract⟩
  · cases h

/-- No permitted request that waits is of a higher priority than the one that comes out. -/
theorem popRequest_highest (queue rest : WindowsPopupQueue)
    (isPermitted : PopupRequestParams → Bool) (taken request : Request)
    (hpop : queue.popRequest isPermitted = some (taken, rest))
    (hrequest : request ∈ queue.requests.entries)
    (hpermitted : isPermitted request.params = true) :
    request.priority.toNat ≤ taken.priority.toNat := by
  obtain ⟨val, hfind, hextract⟩ := popRequest_eq_some hpop
  obtain ⟨-, -, -, -, hsame, -⟩ := SortedBy.extract_eq_some hextract
  obtain ⟨-, before, behind, hentries, hbefore⟩ := List.find?_eq_some_iff_append.1 hfind
  have hsorted := queue.requests.sorted
  rw [hentries] at hrequest hsorted
  rw [← equivalent_operatorLess.1 hsame]
  rcases List.mem_append.1 hrequest with hheld | hlater
  · exact absurd (hbefore request hheld) (by simp [hpermitted])
  · rcases List.mem_cons.1 hlater with rfl | hlater
    · exact Nat.le_refl _
    · have hless := List.rel_of_pairwise_cons (List.pairwise_append.1 hsorted).2.1 hlater
      exact Nat.le_of_not_lt (of_decide_eq_false hless)

def alarmRequest : Request := ⟨.alarm, { popupId := .alarm }⟩

def rebootRequest : Request :=
  ⟨.reboot, { popupId := .reboot, disposition := ⟨.high, .popup, .reboot⟩ }⟩

theorem popRequest_highest_reboot :
    alarmRequest.priority.toNat ≤ rebootRequest.priority.toNat :=
  popRequest_highest ((empty.pushRequest alarmRequest).pushRequest rebootRequest)
    (empty.pushRequest alarmRequest) (fun _ => true) rebootRequest alarmRequest rfl
    (show alarmRequest ∈ [rebootRequest, alarmRequest] by simp) rfl

end WindowsPopupQueue

/-! ## A run -/

namespace Application

variable {app app' : Application} {priority : Priority}

/-- What left the queue and what is in it, in the order in which it came. -/
def InTurn (app : Application) : Prop :=
  ∀ priority, (app.left ++ app.windowsPopupQueue.requests.entries).filter (ofPriority priority) =
    app.accepted.filter (ofPriority priority)

theorem inTurn_tryShowPopup (h : app.InTurn) : app.tryShowPopup.InTurn := by
  intro priority
  rw [tryShowPopup]
  split
  · exact h priority
  · next request queue hpop =>
      obtain ⟨val, -, hextract⟩ := WindowsPopupQueue.popRequest_eq_some hpop
      show (app.left ++ [request] ++ _).filter _ = app.accepted.filter _
      rw [← h priority, List.filter_append, List.filter_append, List.filter_append,
        List.append_assoc, SortedBy.filter_extract (isClass_ofPriority priority) hextract]

theorem inTurn_actionPopupPush {params : PopupRequestParams} (h : app.InTurn)
    (hstep : app.actionPopupPush params = some app') : app'.InTurn := by
  obtain ⟨top, -, rfl⟩ := Option.map_eq_some_iff.1 hstep
  dsimp only
  split
  · exact h
  · split
    · refine inTurn_tryShowPopup fun priority => ?_
      show (app.left ++ emplaced _ _ _).filter _ = _
      rw [List.filter_append, filter_emplaced (isClass_ofPriority priority)
        app.windowsPopupQueue.requests.sorted, ← List.append_assoc, ← List.filter_append,
        h priority, ← List.filter_append]
    · exact h

theorem inTurn_step {event : Event} (h : app.InTurn) (hstep : app.step event = some app') :
    app'.InTurn := by
  cases event with
  | showPopup params => exact inTurn_actionPopupPush h hstep
  | handleSwitchWindow stack =>
      cases hstep
      exact inTurn_tryShowPopup h
  | windows stack =>
      cases hstep
      exact h
  | filters popupFilter =>
      cases hstep
      exact h
  | clearPendingPopups =>
      cases hstep
      intro priority
      show (app.left ++ _ ++ []).filter _ = app.accepted.filter _
      rw [List.append_nil]
      exact h priority

theorem inTurn_run {events : List Event} (h : app.InTurn)
    (hrun : events.foldlM step app = some app') : app'.InTurn := by
  induction events generalizing app with
  | nil =>
      cases hrun
      exact h
  | cons event events ih =>
      rw [List.foldlM_cons] at hrun
      obtain ⟨next, hstep, hrest⟩ := Option.bind_eq_some_iff.1 hrun
      exact ih (inTurn_step h hstep) hrest

/-- The requests of one priority leave the queue in the order in which they were put into it:
none is lost, none leaves twice, and none goes past another. -/
theorem left_in_turn (popupFilter : Filter) (stack : WindowsStack) (events : List Event)
    (app : Application) (priority : Priority)
    (hrun : events.foldlM step (init popupFilter stack) = some app) :
    (app.left ++ app.windowsPopupQueue.requests.entries).filter (ofPriority priority) =
      app.accepted.filter (ofPriority priority) :=
  inTurn_run (fun _ => rfl) hrun priority

def homeWindow : WindowData := ⟨"MainWindow", {}⟩

/-- The volume is held back by a filter until a window is switched. -/
def pendingVolume : List Event :=
  [.filters ⟨[some fun params => if params.popupId = .volume then .ignore else .showPopup]⟩,
    .showPopup { popupId := .volume }, .filters ⟨[]⟩, .handleSwitchWindow [homeWindow]]

theorem left_in_turn_volume :
    let app := (pendingVolume.foldlM step (init ⟨[]⟩ [homeWindow])).get rfl
    (app.left ++ app.windowsPopupQueue.requests.entries).filter (ofPriority .normal) =
      app.accepted.filter (ofPriority .normal) :=
  left_in_turn ⟨[]⟩ [homeWindow] pendingVolume _ .normal (Option.some_get rfl).symm

end Application

end MuditaOS.Apps

import Mathlib.Data.Finset.Card
import MuditaOS.Lib.Run
import MuditaOS.Sys.SystemManager

/-!
# The system closes

While the services are asked one by one, the timer is what makes sure that the next thing
happens, and `ServiceReadyToCloseHandler` stops it before it looks at who has answered. An
answer of a service that is not on the list, or no longer, leaves the list as it is and the
timer stopped, and no message that comes after it starts the timer again, save another close
request. As long as there is no such answer, each one takes a name off the list, so the timer
is started at most once for a service, and what `CloseServices` destroys is what is left of
the list of services, which has been turned round once.
-/

namespace MuditaOS.Sys.SystemManager

open MuditaOS.Lib

variable {lists : WhiteLists} {s : SystemManager} {e : SystemEvent} {services : List Name}
  {events : List SystemEvent} {sender : Name} {reason : CloseReason}

/-- Once there has been a close request, the timer is active until `CloseServices` runs, and
brings it about if it expires; it has been started at most once for a service. The services
that are then destroyed are those that are not on the white list, save what has been destroyed
before, in reverse order of creation. -/
structure Completes (lists : WhiteLists) (s : SystemManager) : Prop where
  defined : s.undefined = false
  timer : s.requested → s.state = .Running → s.serviceCloseTimer
  reached : s.requested → s.state = .Running → (step lists s .expired).state ≠ .Running
  starts : s.requested → s.state = .Running → s.starts ≤ s.created.length
  destroyed : s.state ≠ .Running → s.destroyed =
    s.created.reverse.filter fun service =>
      service ∉ lists (whiteListTypeFor s.closeReason) && service ∉ s.restored

/-- While there are services on the list, only these get ready, and when the system is to be
closed there is a service. -/
def Listed (s : SystemManager) (e : SystemEvent) : Prop :=
  s.state = .Running →
    match e with
    | .close _ => s.servicesToClose ++ s.servicesList ≠ []
    | .readyToClose sender => s.servicesToClose ≠ [] → sender ∈ s.servicesToClose
    | .restore | .expired => True

/-! ## The lists -/

/-- The list of services is the order of creation, or the reverse of it, without those that
have been destroyed. -/
structure Ordered (s : SystemManager) : Prop where
  list : s.servicesList =
    (if s.serviceListReversed then s.created.reverse else s.created).filter (· ∉ s.restored)
  toClose : ∀ service ∈ s.servicesToClose, service ∈ s.created

theorem Ordered.mem (h : Ordered s) {service : Name} (hmem : service ∈ s.servicesList) :
    service ∈ s.created := by
  rw [h.list] at hmem
  have hbase := List.mem_of_mem_filter hmem
  split at hbase
  · exact List.mem_reverse.1 hbase
  · exact hbase

theorem Ordered.reverseOnce (h : Ordered s) : Ordered s.reverseOnce := by
  rw [SystemManager.reverseOnce]
  split
  case isTrue hnot =>
      refine ⟨?_, h.toClose⟩
      have hlist := h.list
      rw [if_neg hnot] at hlist
      simp only [if_true]
      rw [hlist, List.filter_reverse]
  case isFalse => exact h

theorem serviceListReversed_reverseOnce : s.reverseOnce.serviceListReversed := by
  rw [SystemManager.reverseOnce]
  split
  case isTrue => rfl
  case isFalse h => exact not_not.1 h

/-- Two filters of a list destroy and keep. -/
theorem destroyServices_eq {whitelist list : List Name} :
    destroyServices whitelist list =
      (list.filter (· ∉ whitelist), list.filter (· ∈ whitelist)) := by
  rw [destroyServices, List.partition_eq_filter_filter]
  simp [Function.comp_def]

theorem Ordered.restoreSystemHandler (h : Ordered s) : Ordered (s.restoreSystemHandler lists) := by
  have hrev := h.reverseOnce
  refine ⟨?_, hrev.toClose⟩
  simp only [SystemManager.restoreSystemHandler, destroyServices_eq]
  have hlist := hrev.list
  rw [if_pos serviceListReversed_reverseOnce] at hlist ⊢
  rw [hlist, List.filter_filter]
  refine List.filter_congr fun service hservice => ?_
  by_cases hrest : service ∈ s.reverseOnce.restored <;>
    by_cases hwhite : service ∈ lists .Restore <;> simp_all

/-- Each answer takes at least one name off the list. -/
theorem card_filter_ne {list : List Name} (h : sender ∈ list) :
    (list.filter (· ≠ sender)).toFinset.card + 1 = list.toFinset.card := by
  have herase : (list.filter (· ≠ sender)).toFinset = list.toFinset.erase sender := by
    ext service
    simp [and_comm]
  rw [herase, Finset.card_erase_add_one (List.mem_toFinset.2 h)]

theorem Ordered.card_le (h : Ordered s) : s.servicesToClose.toFinset.card ≤ s.created.length := by
  refine le_trans (Finset.card_le_card fun service hservice => ?_) (List.toFinset_card_le s.created)
  exact List.mem_toFinset.2 (h.toClose service (List.mem_toFinset.1 hservice))

/-! ## The handlers -/

/-- The services that are to be destroyed when the system is closed. -/
def Rest (lists : WhiteLists) (s : SystemManager) : List Name :=
  s.created.reverse.filter fun service =>
    service ∉ lists (whiteListTypeFor s.closeReason) && service ∉ s.restored

/-- While the system is closing, the timer is active, some service is still asked, and the
starts of the timer have taken their names off the list. -/
structure Inv (lists : WhiteLists) (s : SystemManager) : Prop where
  ordered : s.state = .Running → Ordered s
  defined : s.undefined = false
  timer : s.serviceCloseTimer → s.requested
  asked : s.servicesToClose ≠ [] → s.requested
  closing : s.requested → s.state = .Running →
    s.serviceListReversed ∧ s.serviceCloseTimer ∧ s.servicesToClose ≠ [] ∧
      s.starts + s.servicesToClose.toFinset.card ≤ s.created.length + 1
  running : s.state = .Running → s.destroyed = []
  closed : s.state ≠ .Running → s.destroyed = Rest lists s

theorem inv_boot : Inv lists (boot services) where
  ordered := fun _ => ⟨by simp [boot], by simp [boot]⟩
  defined := rfl
  timer := by simp [boot]
  asked := by simp [boot]
  closing := by simp [boot]
  running := fun _ => rfl
  closed := fun h => absurd rfl h

theorem stateFor_ne : stateFor reason ≠ .Running := by cases reason <;> decide

/-- Whatever the timer is then. -/
theorem inv_closeServices (h : Inv lists s) (hrun : s.state = .Running)
    (hrev : s.serviceListReversed) (hreq : s.requested) {timer : Bool} {names : List Name} :
    Inv lists ({ s with serviceCloseTimer := timer, servicesToClose := names }.closeServices
      lists) where
  ordered := fun hstate => absurd hstate stateFor_ne
  defined := h.defined
  timer := fun _ => hreq
  asked := fun _ => hreq
  closing := fun _ hstate => absurd hstate stateFor_ne
  running := fun hstate => absurd hstate stateFor_ne
  closed := by
    intro _
    simp only [closeServices, destroyServices_eq, Rest, h.running hrun, List.nil_append]
    rw [(h.ordered hrun).list, if_pos hrev, List.filter_filter]

/-- The list has been turned round, now or before, and nothing else has changed. -/
theorem reverseOnce_eq : s.reverseOnce = { s with
    servicesList := if s.serviceListReversed then s.servicesList else s.servicesList.reverse
    serviceListReversed := true } := by
  obtain ⟨created, servicesList, serviceListReversed⟩ := s
  cases serviceListReversed <;> rfl

theorem inv_restoreSystemHandler (h : Inv lists s) (hrun : s.state = .Running) :
    Inv lists (s.restoreSystemHandler lists) where
  ordered := fun _ => (h.ordered hrun).restoreSystemHandler
  defined := by
    simp only [restoreSystemHandler, reverseOnce_eq]
    exact h.defined
  timer := by
    simp only [restoreSystemHandler, reverseOnce_eq]
    exact h.timer
  asked := by
    simp only [restoreSystemHandler, reverseOnce_eq]
    exact h.asked
  closing := by
    simp only [restoreSystemHandler, reverseOnce_eq]
    exact fun hreq hstate => ⟨trivial, (h.closing hreq hstate).2⟩
  running := by
    simp only [restoreSystemHandler, reverseOnce_eq]
    exact h.running
  closed := by
    simp only [restoreSystemHandler, reverseOnce_eq]
    exact fun hstate => absurd hrun hstate

theorem inv_closeSystemHandler (h : Inv lists s) (hrun : s.state = .Running)
    (hsome : s.servicesToClose ++ s.servicesList ≠ []) :
    Inv lists (s.closeSystemHandler reason) := by
  have hord := (h.ordered hrun).reverseOnce
  rw [closeSystemHandler]
  rw [reverseOnce_eq] at hord ⊢
  have hnonempty : s.servicesToClose ++ (if s.serviceListReversed then s.servicesList
      else s.servicesList.reverse) ≠ [] := by
    split <;> simpa using hsome
  have hall : Ordered ({ s with
      servicesList := if s.serviceListReversed then s.servicesList else s.servicesList.reverse
      serviceListReversed := true }.initiateSystemCloseSequence reason) := by
    refine ⟨hord.list, fun service hservice => ?_⟩
    rcases List.mem_append.1 hservice with hold | hnew
    · exact hord.toClose service hold
    · exact hord.mem hnew
  exact
    { ordered := fun _ => hall
      defined := by
        simp only [initiateSystemCloseSequence, startTimer, h.defined, Bool.false_or,
          List.isEmpty_eq_false_iff]
        exact hnonempty
      timer := fun _ => rfl
      asked := fun _ => rfl
      closing := by
        intro _ _
        refine ⟨rfl, rfl, hnonempty, ?_⟩
        have := hall.card_le
        simp only [initiateSystemCloseSequence, startTimer] at this ⊢
        omega
      running := fun _ => h.running hrun
      closed := fun hstate => absurd hrun hstate }

theorem inv_serviceReadyToCloseHandler (h : Inv lists s) (hrun : s.state = .Running)
    (hlisted : s.servicesToClose ≠ [] → sender ∈ s.servicesToClose) :
    Inv lists (s.serviceReadyToCloseHandler lists sender) := by
  rw [serviceReadyToCloseHandler]
  split
  case isFalse => exact h
  case isTrue hgate =>
      have hmem := hlisted hgate.1
      have hreq := h.asked hgate.1
      obtain ⟨hrev, _, _, hcount⟩ := h.closing hreq hrun
      have hcard := card_filter_ne hmem
      rw [if_neg (not_not.2 hmem)]
      dsimp only
      split
      case isTrue => exact inv_closeServices h hrun hrev hreq
      case isFalse hleft =>
          exact
            { ordered := fun _ => ⟨(h.ordered hrun).list, fun service hservice =>
                (h.ordered hrun).toClose service (List.mem_of_mem_filter hservice)⟩
              defined := h.defined
              timer := fun _ => hreq
              asked := fun _ => hreq
              closing := by
                intro _ _
                refine ⟨hrev, rfl, hleft, ?_⟩
                simp only [startTimer]
                omega
              running := fun _ => h.running hrun
              closed := fun hstate => absurd hrun hstate }

theorem inv_onTimeout (h : Inv lists s) (hrun : s.state = .Running) :
    Inv lists (s.onTimeout lists) := by
  rw [onTimeout]
  split
  case isTrue htimer =>
      have hreq := h.timer htimer
      exact inv_closeServices h hrun (h.closing hreq hrun).1 hreq
  case isFalse => exact h

/-! ## Runs -/

theorem inv_step (h : Inv lists s) (hrule : Listed s e) : Inv lists (step lists s e) := by
  unfold step
  split
  case isFalse => exact h
  case isTrue hrun =>
      cases e with
      | close reason => exact inv_closeSystemHandler h hrun (hrule hrun)
      | restore => exact inv_restoreSystemHandler h hrun
      | readyToClose sender => exact inv_serviceReadyToCloseHandler h hrun (hrule hrun)
      | expired => exact inv_onTimeout h hrun

theorem Inv.completes (h : Inv lists s) : Completes lists s where
  defined := h.defined
  timer := fun hreq hrun => (h.closing hreq hrun).2.1
  reached := by
    intro hreq hrun
    simp only [step, if_pos hrun, onTimeout, (h.closing hreq hrun).2.1, if_true]
    exact stateFor_ne
  starts := by
    intro hreq hrun
    obtain ⟨_, _, hsome, hcount⟩ := h.closing hreq hrun
    have hpos : 0 < s.servicesToClose.toFinset.card :=
      Finset.card_pos.2 (List.toFinset_nonempty_iff _ |>.2 hsome)
    omega
  destroyed := h.closed

theorem listed_of_completes (h : Inv lists s) (hgood : Completes lists (step lists s e)) :
    Listed s e := by
  intro hrun
  unfold step at hgood
  rw [if_pos hrun] at hgood
  cases e with
  | close reason =>
      intro hnone
      have hdef := hgood.defined
      obtain ⟨htoClose, hlist⟩ := List.append_eq_nil_iff.1 hnone
      simp only [closeSystemHandler, reverseOnce_eq, initiateSystemCloseSequence, startTimer,
        htoClose, hlist] at hdef
      simp at hdef
  | restore => trivial
  | readyToClose sender =>
      intro hsome
      by_contra hnot
      have hreq := h.asked hsome
      have htimer := (h.closing hreq hrun).2.1
      have hskip : s.serviceReadyToCloseHandler lists sender
          = { s with serviceCloseTimer := false } := by
        rw [serviceReadyToCloseHandler, if_pos ⟨hsome, htimer⟩, if_pos hnot]
      change Completes lists (s.serviceReadyToCloseHandler lists sender) at hgood
      rw [hskip] at hgood
      cases hgood.timer hreq hrun
  | expired => trivial

/-- In a run the closing of the system is going to complete, in every state, exactly when while
there are services on the list only these get ready, and there is a service whenever the
system is to be closed. -/
theorem completes_iff_listed :
    EveryStep (fun s e => Completes lists (step lists s e)) (step lists) (boot services) events ↔
      EveryStep Listed (step lists) (boot services) events :=
  @everyStep_congr SystemManager SystemEvent (Inv lists) _ Listed (step lists)
    (fun _ _ h => ⟨listed_of_completes h, fun hrule => (inv_step h hrule).completes⟩)
    (fun _ _ h hrule => inv_step h hrule) _ _ inv_boot

/-- The answer of the first service is repeated while the second is still asked. -/
theorem never_closes :
    ¬ EveryStep (fun s e => Completes (fun _ => []) (step (fun _ => []) s e))
      (step fun _ => []) (boot [[1], [2]])
      [.close .RegularPowerDown, .readyToClose [2], .readyToClose [2]] := by
  intro h
  have hstopped := h.2.2.1.timer (by decide) (by decide)
  revert hstopped
  decide

end MuditaOS.Sys.SystemManager

import MuditaOS.Gui.ServiceGUI
import MuditaOS.Lib.Run
import MuditaOS.Proofs.EinkRefresh

/-!
# Who holds a context

A locked context is held by the worker that draws in it, or by one message: that its drawing
is finished, that it is to be displayed or refreshed, or that it was displayed. The holders
are counted, so that no context has two and none is lost; and at most one of them belongs to
a frame that is displayed.
-/

namespace MuditaOS.Gui

open MuditaOS.Lib MuditaOS.Eink

section

variable {controller : Controller} {board : Board}

/-! ## The pool -/

namespace ContextPool

variable {pool : ContextPool board} {id contextId : Int} {sequence : List Int} {capacity : Nat}

theorem nodup_ids : (ids capacity).Nodup := List.nodup_range.map fun _ _ => Int.ofNat.inj

theorem count_removeContextId :
    (removeContextId sequence contextId).count id =
      if id = contextId then 0 else sequence.count id := by
  unfold removeContextId
  split
  · next heq =>
      subst heq
      exact List.count_eq_zero.2 fun hmem => by simpa using List.of_mem_filter hmem
  · next hne => exact List.count_filter (by simpa using hne)

theorem count_addContextId (h : sequence.count contextId = 0) :
    (addContextId sequence contextId).count id =
      sequence.count id + if id = contextId then 1 else 0 := by
  rw [addContextId, if_neg (List.count_eq_zero.1 h), List.count_append, List.count_singleton]
  simp only [beq_iff_eq, eq_comm (a := id)]

/-- Every context is free or locked, and not both. -/
def Partition (capacity : Nat) (pool : ContextPool board) : Prop := ∀ id,
  pool.freeContextIds.count id + pool.lockedContextIds.count id = (ids capacity).count id

theorem partition_init : (init board capacity).Partition capacity := fun _ => rfl

theorem Partition.le_one (h : pool.Partition capacity) (id : Int) :
    pool.freeContextIds.count id + pool.lockedContextIds.count id ≤ 1 :=
  h id ▸ List.nodup_iff_count_le_one.1 nodup_ids id

theorem Partition.count_lock (h : pool.Partition capacity) (hfree : contextId ∈ pool.freeContextIds)
    (id : Int) :
    (pool.lockContext contextId).freeContextIds.count id + (if id = contextId then 1 else 0) =
        pool.freeContextIds.count id ∧
      (pool.lockContext contextId).lockedContextIds.count id =
        pool.lockedContextIds.count id + if id = contextId then 1 else 0 := by
  have hone := h.le_one contextId
  have hpos := List.count_pos_iff.2 hfree
  refine ⟨?_, count_addContextId (by omega)⟩
  show (removeContextId _ _).count id + _ = _
  rw [count_removeContextId]
  split
  · next heq => subst heq; omega
  · rfl

theorem Partition.lockContext (h : pool.Partition capacity)
    (hfree : contextId ∈ pool.freeContextIds) :
    (pool.lockContext contextId).Partition capacity := fun id => by
  obtain ⟨hf, hl⟩ := h.count_lock hfree id
  rw [hl, ← h id]
  omega

theorem Partition.count_free (h : pool.Partition capacity)
    (hlocked : contextId ∈ pool.lockedContextIds) (id : Int) :
    (pool.freeContext contextId).freeContextIds.count id =
        pool.freeContextIds.count id + (if id = contextId then 1 else 0) ∧
      (pool.freeContext contextId).lockedContextIds.count id + (if id = contextId then 1 else 0) =
        pool.lockedContextIds.count id := by
  have hone := h.le_one contextId
  have hpos := List.count_pos_iff.2 hlocked
  refine ⟨count_addContextId (by omega), ?_⟩
  show (removeContextId _ _).count id + _ = _
  rw [count_removeContextId]
  split
  · next heq => subst heq; omega
  · rfl

theorem Partition.freeContext (h : pool.Partition capacity)
    (hlocked : contextId ∈ pool.lockedContextIds) :
    (pool.freeContext contextId).Partition capacity := fun id => by
  obtain ⟨hf, hl⟩ := h.count_free hlocked id
  rw [hf, ← h id]
  omega

theorem isAnyContextLocked_eq_false (h : pool.lockedContextIds = []) :
    pool.isAnyContextLocked = false := by
  rw [isAnyContextLocked, h]
  rfl

theorem borrowContext_eq_some {result : Int × ContextPool board}
    (h : pool.borrowContext = some result) :
    result.1 ∈ pool.freeContextIds ∧ result.2 = pool.lockContext result.1 := by
  unfold borrowContext at h
  cases hfree : pool.freeContextIds with
  | nil => rw [hfree] at h; cases h
  | cons front rest =>
      rw [hfree] at h
      cases h
      exact ⟨List.mem_cons_self, rfl⟩

theorem borrowContextById_eq_some {pool' : ContextPool board}
    (h : pool.borrowContextById id = some pool') :
    id ∈ pool.freeContextIds ∧ pool' = pool.lockContext id := by
  unfold borrowContextById at h
  split at h
  · next hfree =>
      cases h
      exact ⟨hfree, rfl⟩
  · cases h

end ContextPool

/-! ## Holders -/

def Worker.held : Worker board → List Int
  | .rendering contextId _ _ => [contextId]
  | _ => []

/-- The context of a finished drawing. -/
def Message.finished : Message board → Option RenderReference
  | .renderingFinished render => some render
  | _ => none

def Message.displayed : Message board → Option Int
  | .imageDisplayed contextId => some contextId
  | _ => none

def Sent.contextId : Sent → Int
  | .refreshMessage message => message.contextId
  | .imageDisplayedNotification contextId _ => contextId

/-- The context that is displayed until the notification comes. -/
def EinkMessage.contextId : EinkMessage → Option Int
  | .image contextId _ => some contextId
  | .refresh message => some message.contextId
  | _ => none

namespace System

def finished (s : System controller board) : List RenderReference :=
  s.mailbox.filterMap Message.finished

def displays (s : System controller board) : List Int :=
  s.mailbox.filterMap Message.displayed ++ s.einkMailbox.filterMap EinkMessage.contextId

/-- The contexts that somebody works on. -/
def holders (s : System controller board) : List Int :=
  s.worker.held ++ s.finished.map RenderReference.contextId ++ s.displays

structure Owned (capacity : Nat) (s : System controller board) : Prop where
  partition : s.contextPool.Partition capacity
  held : ∀ id, s.holders.count id = s.contextPool.lockedContextIds.count id
  displays : s.displays.length = if s.displayingState = .displaying then 1 else 0
  waits : s.thread = .returned ∨ s.thread = .sending → s.displayingState = .idle
  cached : ∀ render, s.cache = some render → render.contextId ∈ ContextPool.ids capacity
  running : s.eink.currentState = .running

/-! ## Messages -/

variable {capacity : Nat} {s s' : System controller board}

theorem owned_init {scheme : ColorScheme} {eink : ServiceEink controller board}
    (hrunning : eink.currentState = .running) :
    (init capacity scheme eink).Owned capacity where
  partition := ContextPool.partition_init
  held _ := rfl
  displays := rfl
  waits := by simp [init]
  cached := by simp [init]
  running := hrunning

theorem Owned.locked (h : s.Owned capacity) {id : Int} (hid : id ∈ s.holders) :
    id ∈ s.contextPool.lockedContextIds := by
  rw [← List.count_pos_iff, ← h.held id]
  exact List.count_pos_iff.2 hid

theorem Owned.nodup (h : s.Owned capacity) : s.holders.Nodup :=
  List.nodup_iff_count_le_one.2 fun id => by
    have := h.partition.le_one id
    rw [h.held id]
    omega

theorem Owned.free (h : s.Owned capacity) (hlocked : s.contextPool.lockedContextIds = [])
    {id : Int} (hid : id ∈ ContextPool.ids capacity) : id ∈ s.contextPool.freeContextIds := by
  have hpartition := h.partition id
  rw [hlocked, List.count_nil, Nat.add_zero] at hpartition
  rw [← List.count_pos_iff, hpartition]
  exact List.count_pos_iff.2 hid

/-- A step that hands contexts on without touching the pool. -/
theorem Owned.handOver (h : s.Owned capacity) (hpool : s'.contextPool = s.contextPool)
    (hholders : ∀ id, s'.holders.count id = s.holders.count id)
    (hdisplays : s'.displays.length = s.displays.length)
    (hdisplaying : s'.displayingState = s.displayingState)
    (hwaits : s'.thread = .returned ∨ s'.thread = .sending → s'.displayingState = .idle)
    (hcache : s'.cache = s.cache) (hrunning : s'.eink.currentState = .running) :
    s'.Owned capacity where
  partition := hpool ▸ h.partition
  held id := by rw [hholders, hpool, h.held]
  displays := by rw [hdisplays, hdisplaying, h.displays]
  waits := hwaits
  cached := hcache ▸ h.cached
  running := hrunning

/-- A step that leaves the messages that hold contexts, the worker and the pool alone. -/
theorem Owned.same (h : s.Owned capacity) (hpool : s'.contextPool = s.contextPool)
    (hworker : s'.worker.held = s.worker.held) (hfinished : s'.finished = s.finished)
    (hdisplays : s'.displays = s.displays)
    (hdisplaying : s'.displayingState = s.displayingState)
    (hwaits : s'.thread = .returned ∨ s'.thread = .sending → s'.displayingState = .idle)
    (hcache : s'.cache = s.cache) (hrunning : s'.eink.currentState = .running) :
    s'.Owned capacity :=
  h.handOver hpool (fun id => by rw [System.holders, System.holders, hworker, hfinished, hdisplays])
    (by rw [hdisplays]) hdisplaying hwaits hcache hrunning

/-! ### The display -/

theorem sent_handle (message : EinkMessage) (status : EinkStatus controller) (prepared : Bool)
    (hrunning : s.eink.currentState = .running) :
    (s.eink.handle (s.einkEvent message status prepared)).2.map Sent.contextId =
      message.contextId.toList := by
  cases message with
  | image contextId refreshMode =>
      simp only [einkEvent, ServiceEink.handle, ServiceEink.handleImageMessage, hrunning]
      split <;> rfl
  | refresh message => rfl
  | cancelRefresh => rfl
  | prepareEarly refreshMode => rfl
  | einkMode mode => rfl

theorem running_handle (message : EinkMessage) (status : EinkStatus controller) (prepared : Bool)
    (hrunning : s.eink.currentState = .running) :
    (s.eink.handle (s.einkEvent message status prepared)).1.currentState = .running := by
  cases message with
  | image contextId refreshMode =>
      simp only [einkEvent, ServiceEink.handle, ServiceEink.handleImageMessage, hrunning]
      split <;> exact ServiceEink.updateImage_frame.2.2.2.2.trans hrunning
  | refresh message =>
      simp only [einkEvent, ServiceEink.handle, ServiceEink.handleRefreshMessage]
      split
      · unfold ServiceEink.refresh
        cases status <;> cases s.eink.previousRefreshStatus <;> exact hrunning
      · exact hrunning
  | cancelRefresh =>
      simp only [einkEvent, ServiceEink.handle, ServiceEink.handleCancelRefreshMessage]
      split <;> exact hrunning
  | prepareEarly refreshMode =>
      simp only [einkEvent, ServiceEink.handle, ServiceEink.handlePrepareEarlyRequest]
      split <;> exact hrunning
  | einkMode mode => exact hrunning

/-- A message of the display service is handled for good, leads to a refresh, or is answered. -/
theorem einkStep_cases (status : EinkStatus controller) (prepared : Bool)
    (hrunning : s.eink.currentState = .running) :
    (s.einkMailbox = [] ∧ s.einkStep status prepared = s) ∨
      ∃ message rest eink, s.einkMailbox = message :: rest ∧
        eink = (s.eink.handle (s.einkEvent message status prepared)).1 ∧
        ((message.contextId = none ∧
            s.einkStep status prepared = { s with einkMailbox := rest, eink }) ∨
          (∃ refreshMessage, message.contextId = some refreshMessage.contextId ∧
            (s.eink.handle (s.einkEvent message status prepared)).2 =
              [.refreshMessage refreshMessage] ∧
            s.einkStep status prepared =
              { s with einkMailbox := rest ++ [.refresh refreshMessage], eink }) ∨
          ∃ contextId receiver, message.contextId = some contextId ∧
            (s.eink.handle (s.einkEvent message status prepared)).2 =
              [.imageDisplayedNotification contextId receiver] ∧
            s.einkStep status prepared =
              { s with
                einkMailbox := rest
                eink
                mailbox := s.mailbox ++ [.imageDisplayed contextId] }) := by
  cases hmailbox : s.einkMailbox with
  | nil => exact .inl ⟨rfl, by rw [einkStep, hmailbox]⟩
  | cons message rest =>
      have hsent := sent_handle message status prepared hrunning
      refine .inr ⟨message, rest, _, rfl, rfl, ?_⟩
      have hstep : s.einkStep status prepared =
          (s.eink.handle (s.einkEvent message status prepared)).2.foldl send
            { s with
              einkMailbox := rest
              eink := (s.eink.handle (s.einkEvent message status prepared)).1 } := by
        rw [einkStep, hmailbox]
      rw [hstep]
      cases hcontext : message.contextId with
      | none =>
          rw [hcontext] at hsent
          exact .inl ⟨rfl, by rw [List.map_eq_nil_iff.1 hsent]; rfl⟩
      | some contextId =>
          rw [hcontext] at hsent
          obtain ⟨sent, hone, rfl⟩ := List.map_eq_singleton_iff.1 hsent
          rw [hone]
          cases sent with
          | refreshMessage refreshMessage => exact .inr (.inl ⟨refreshMessage, rfl, rfl, rfl⟩)
          | imageDisplayedNotification contextId receiver =>
              exact .inr (.inr ⟨contextId, receiver, rfl, rfl, rfl⟩)

theorem owned_einkStep (status : EinkStatus controller) (prepared : Bool)
    (h : s.Owned capacity) : (s.einkStep status prepared).Owned capacity := by
  obtain ⟨-, hstep⟩ | ⟨message, rest, eink, hmailbox, rfl, hcases⟩ :=
    einkStep_cases status prepared h.running
  · rwa [hstep]
  · have hrunning := running_handle message status prepared h.running
    obtain ⟨hcontext, hstep⟩ | ⟨refreshMessage, hcontext, -, hstep⟩ |
      ⟨contextId, receiver, hcontext, -, hstep⟩ := hcases
    · rw [hstep]
      refine h.same rfl rfl rfl ?_ rfl h.waits rfl hrunning
      simp only [System.displays, hmailbox, List.filterMap_cons, hcontext]
    · have hfront := List.filterMap_cons_some (l := rest) hcontext
      rw [hstep]
      refine h.handOver rfl (fun id => ?_) ?_ rfl h.waits rfl hrunning
      · simp only [System.holders, System.displays, System.finished, hmailbox, hfront,
          List.filterMap_append, List.filterMap_cons, List.filterMap_nil, EinkMessage.contextId,
          List.count_append, List.count_cons, List.count_nil]
        omega
      · simp only [System.displays, hmailbox, hfront, List.filterMap_append, List.filterMap_cons,
          List.filterMap_nil, EinkMessage.contextId, List.length_append, List.length_cons,
          List.length_nil]
    · rw [hstep]
      refine h.handOver rfl (fun id => ?_) ?_ rfl h.waits rfl hrunning
      · simp only [System.holders, System.displays, System.finished, hmailbox,
          List.filterMap_cons, hcontext, List.filterMap_append, List.filterMap_nil,
          Message.finished, Message.displayed, List.map_append, List.map_nil,
          List.count_append, List.count_cons, List.count_nil]
        omega
      · simp only [System.displays, hmailbox, List.filterMap_cons, hcontext,
          List.filterMap_append, List.filterMap_nil, Message.displayed, List.length_append,
          List.length_cons, List.length_nil]
        omega

/-! ### The worker -/

/-- What one step of the worker can do. -/
inductive Worked (s : System controller board) : System controller board → Prop
  | waits (hworker : s.worker = .waiting) (hsignalling : s.signallingQueue = none) : Worked s s
  | told (command : Signal) (hworker : s.worker = .waiting)
      (hsignalling : s.signallingQueue = some command) :
      Worked s { s with signallingQueue := none, worker := .signalled command }
  | coloured (hworker : s.worker = .signalled .changeColorScheme) :
      Worked s { s with colorScheme := s.colorSchemeUpdate, worker := .waiting }
  | missed (hworker : s.worker = .signalled .render) (hqueue : s.commandsQueue = []) :
      Worked s { s with worker := .waiting }
  | took (item : QueueItem board) (queue : List (QueueItem board))
      (hworker : s.worker = .signalled .render) (hqueue : s.commandsQueue = item :: queue) :
      Worked s { s with commandsQueue := queue, worker := .dequeued item }
  | starves (item : QueueItem board) (hworker : s.worker = .dequeued item)
      (hfree : s.contextPool.freeContextIds = []) : Worked s s
  | borrowed (item : QueueItem board) (contextId : Int) (hworker : s.worker = .dequeued item)
      (hfree : contextId ∈ s.contextPool.freeContextIds) :
      Worked s
        { s with
          contextPool := s.contextPool.lockContext contextId
          worker := .rendering contextId item.commands item.refreshMode }
  | drew (contextId : Int) (cmd : DrawCommand board) (commands : List (DrawCommand board))
      (refreshMode : RefreshModes)
      (hworker : s.worker = .rendering contextId (cmd :: commands) refreshMode) :
      Worked s
        { s with
          contextPool := s.contextPool.draw contextId s.colorScheme cmd
          worker := .rendering contextId commands refreshMode }
  | finished (contextId : Int) (refreshMode : RefreshModes)
      (hworker : s.worker = .rendering contextId [] refreshMode) :
      Worked s
        { s with
          worker := .waiting
          mailbox := s.mailbox ++ [.renderingFinished ⟨contextId, refreshMode⟩] }

theorem worked_workerStep : Worked s s.workerStep := by
  unfold workerStep
  split
  · next hworker =>
      split
      · next command hsignalling => exact .told command hworker hsignalling
      · next hsignalling => exact .waits hworker hsignalling
  · next hworker => exact .coloured hworker
  · next hworker =>
      split
      · next hqueue => exact .missed hworker hqueue
      · next item queue hqueue => exact .took item queue hworker hqueue
  · next item hworker =>
      split
      · next contextId pool hborrow =>
          obtain ⟨hfree, hpool⟩ := ContextPool.borrowContext_eq_some hborrow
          dsimp only at hfree hpool
          subst hpool
          exact .borrowed item contextId hworker hfree
      · next hborrow =>
          refine .starves item hworker (List.head?_eq_none_iff.1 ?_)
          exact Option.map_eq_none_iff.1 hborrow
  · next contextId cmd commands refreshMode hworker =>
      exact .drew contextId cmd commands refreshMode hworker
  · next contextId refreshMode hworker => exact .finished contextId refreshMode hworker

theorem owned_worked (h : s.Owned capacity) (hstep : s.Worked s') : s'.Owned capacity := by
  cases hstep with
  | waits hworker hsignalling => exact h
  | told command hworker hsignalling =>
      exact h.same rfl (by rw [hworker]; rfl) rfl rfl rfl h.waits rfl h.running
  | coloured hworker => exact h.same rfl (by rw [hworker]; rfl) rfl rfl rfl h.waits rfl h.running
  | missed hworker hqueue =>
      exact h.same rfl (by rw [hworker]; rfl) rfl rfl rfl h.waits rfl h.running
  | took item queue hworker hqueue =>
      exact h.same rfl (by rw [hworker]; rfl) rfl rfl rfl h.waits rfl h.running
  | starves item hworker hfree => exact h
  | borrowed item contextId hworker hfree =>
      refine ⟨h.partition.lockContext hfree, fun id => ?_, h.displays, h.waits, h.cached,
        h.running⟩
      have hheld := h.held id
      rw [(h.partition.count_lock hfree id).2, ← hheld]
      simp only [System.holders, hworker, Worker.held, List.count_append, List.count_cons,
        List.count_nil, beq_iff_eq, eq_comm (a := id), System.finished, System.displays]
      omega
  | drew contextId cmd commands refreshMode hworker =>
      refine ⟨h.partition, fun id => ?_, h.displays, h.waits, h.cached, h.running⟩
      refine Eq.trans ?_ (h.held id)
      simp only [System.holders, hworker, Worker.held, System.finished, System.displays]
  | finished contextId refreshMode hworker =>
      refine h.handOver rfl (fun id => ?_) ?_ rfl h.waits rfl h.running
      · simp only [System.holders, System.displays, System.finished, hworker, Worker.held,
          List.filterMap_append, List.filterMap_cons, List.filterMap_nil, Message.finished,
          Message.displayed, List.map_append, List.map_cons, List.map_nil, List.count_append,
          List.count_cons, List.count_nil]
        omega
      · simp only [System.displays, List.filterMap_append, List.filterMap_cons,
          List.filterMap_nil, Message.displayed, List.append_nil]

/-! ### The service's thread -/

/-- What one step of the service's thread can do. -/
inductive Threaded (s : System controller board) : System controller board → Prop
  | waits (hthread : s.thread = .ready) (hmailbox : s.mailbox = []) : Threaded s s
  | ignored (item : QueueItem board) (rest : List (Message board)) (hthread : s.thread = .ready)
      (hmailbox : s.mailbox = .draw item :: rest) (hcommands : item.commands = []) :
      Threaded s { s with mailbox := rest }
  | drawn (item : QueueItem board) (rest : List (Message board)) (early : List EinkMessage)
      (refreshMode : RefreshModes) (hthread : s.thread = .ready)
      (hmailbox : s.mailbox = .draw item :: rest) (hcommands : item.commands ≠ [])
      (hearly : early = [] ∨ ∃ mode, early = [.prepareEarly mode]) :
      Threaded s
        { s with
          mailbox := rest
          einkMailbox := s.einkMailbox ++ early
          renderingState := .rendering
          commandsQueue := []
          thread := .enqueueing { item with refreshMode } }
  | displayed (render : RenderReference) (rest : List (Message board))
      (refreshMode : RefreshModes) (hthread : s.thread = .ready)
      (hmailbox : s.mailbox = .renderingFinished render :: rest)
      (hdisplaying : s.displayingState = .idle) :
      Threaded s
        { s with
          mailbox := rest
          renderingState := .idle
          displayingState := .displaying
          cache := none
          einkMailbox := s.einkMailbox ++ [.image render.contextId refreshMode]
          contextReleaseTimer := some render.contextId }
  | cached (render : RenderReference) (rest : List (Message board)) (hthread : s.thread = .ready)
      (hmailbox : s.mailbox = .renderingFinished render :: rest)
      (hdisplaying : s.displayingState = .displaying) :
      Threaded s
        { s with
          mailbox := rest
          renderingState := .idle
          cache := some (RenderReference.cache s.cache render)
          contextPool := s.contextPool.freeContext render.contextId
          einkMailbox := s.einkMailbox ++ [.cancelRefresh] }
  | returned (contextId : Int) (rest : List (Message board)) (hthread : s.thread = .ready)
      (hmailbox : s.mailbox = .imageDisplayed contextId :: rest) :
      Threaded s
        { s with
          mailbox := rest
          displayingState := .idle
          contextPool := s.contextPool.freeContext contextId
          contextReleaseTimer := none
          thread := .returned }
  | coloured (scheme : ColorScheme) (rest : List (Message board)) (hthread : s.thread = .ready)
      (hmailbox : s.mailbox = .changeColorScheme scheme :: rest) :
      Threaded s
        { s with
          mailbox := rest
          colorSchemeUpdate := scheme
          signallingQueue := some .changeColorScheme }
  | closed (rest : List (Message board)) (hthread : s.thread = .ready)
      (hmailbox : s.mailbox = .closeReason :: rest) :
      Threaded s
        { s with mailbox := rest, closeReady := s.closeReady + 1, serviceState := .closed }
  | closing (rest : List (Message board)) (hthread : s.thread = .ready)
      (hmailbox : s.mailbox = .closeReason :: rest)
      (hbusy : s.renderingState = .rendering ∨ s.displayingState = .displaying) :
      Threaded s
        { s with
          mailbox := rest
          serviceState := if s.serviceState = .closed then .closed else .closing }
  | enqueued (item : QueueItem board) (hthread : s.thread = .enqueueing item) :
      Threaded s
        { s with commandsQueue := s.commandsQueue ++ [item], thread := .notifying }
  | notified (hthread : s.thread = .notifying) :
      Threaded s { s with signallingQueue := some .render, thread := .ready }
  | sends (render : RenderReference) (hthread : s.thread = .returned)
      (hcache : s.cache = some render) : Threaded s { s with thread := .sending }
  | answers (hthread : s.thread = .returned) (hclosing : s.serviceState = .closing)
      (hcache : s.cache = none ∨ s.contextPool.lockedContextIds ≠ []) :
      Threaded s
        { s with closeReady := s.closeReady + 1, serviceState := .closed, thread := .ready }
  | resumes (hthread : s.thread = .returned) (hrunning : s.serviceState ≠ .closing)
      (hcache : s.cache = none ∨ s.contextPool.lockedContextIds ≠ []) :
      Threaded s { s with thread := .ready }
  | sent (render : RenderReference) (hthread : s.thread = .sending)
      (hcache : s.cache = some render)
      (hfree : render.contextId ∈ s.contextPool.freeContextIds) :
      Threaded s
        { s with
          contextPool := s.contextPool.lockContext render.contextId
          displayingState := .displaying
          cache := none
          einkMailbox := s.einkMailbox ++ [.image render.contextId render.refreshMode]
          contextReleaseTimer := some render.contextId
          thread := .ready }
  | borrowed (render : RenderReference) (hthread : s.thread = .sending)
      (hcache : s.cache = some render)
      (hlocked : render.contextId ∉ s.contextPool.freeContextIds) :
      Threaded s { s with cache := none, thread := .ready }
  | missing (hthread : s.thread = .sending) (hcache : s.cache = none) :
      Threaded s { s with thread := .ready }

theorem setState_closed : s.setState .closed = { s with serviceState := .closed } := by
  rw [setState, ite_self]

theorem threaded_handleMessage {message : Message board} {rest : List (Message board)}
    (hthread : s.thread = .ready) (hmailbox : s.mailbox = message :: rest) :
    Threaded s ({ s with mailbox := rest }.handleMessage message) := by
  cases message with
  | draw item =>
      simp only [handleMessage, handleDrawMessage]
      split
      · next hempty => exact .ignored item rest hthread hmailbox (List.isEmpty_iff.1 hempty)
      · next hne =>
          have hcommands : item.commands ≠ [] := fun h => hne (List.isEmpty_iff.2 h)
          split
          · have h := Threaded.drawn item rest [] (if item.refreshMode = .guiRefreshDeep then
              item.refreshMode else if getMaxRefreshMode s.commandsQueue = .guiRefreshDeep then
              getMaxRefreshMode s.commandsQueue else item.refreshMode) hthread hmailbox hcommands
              (.inl rfl)
            rwa [List.append_nil] at h
          · exact .drawn item rest [.prepareEarly item.refreshMode] _ hthread hmailbox hcommands
              (.inr ⟨_, rfl⟩)
  | renderingFinished render =>
      simp only [handleMessage, handleGUIRenderingFinished]
      split
      · next hdisplaying =>
          split
          · exact .displayed render rest _ hthread hmailbox hdisplaying
          · next hcache =>
              have h := Threaded.displayed render rest render.refreshMode hthread hmailbox
                hdisplaying
              simp only [sendOnDisplay, sendEink, scheduleContextRelease] at hcache ⊢
              rwa [← hcache] at h
      · next hdisplaying => exact .cached render rest hthread hmailbox hdisplaying
  | imageDisplayed contextId => exact .returned contextId rest hthread hmailbox
  | changeColorScheme scheme => exact .coloured scheme rest hthread hmailbox
  | closeReason =>
      simp only [handleMessage, processCloseReason]
      split
      · rw [setState_closed]
        exact .closed rest hthread hmailbox
      · next hbusy =>
          refine .closing rest hthread hmailbox ?_
          cases hrendering : s.renderingState with
          | rendering => exact .inl rfl
          | idle =>
              cases hdisplaying : s.displayingState with
              | displaying => exact .inr rfl
              | idle => exact absurd ⟨hrendering, hdisplaying⟩ hbusy

theorem threaded_threadStep : Threaded s s.threadStep := by
  unfold threadStep
  split
  · next item hthread => exact .enqueued item hthread
  · next hthread => exact .notified hthread
  · next hthread =>
      split
      · next hnext =>
          obtain ⟨render, hcache⟩ := Option.isSome_iff_exists.1 hnext.1
          exact .sends render hthread hcache
      · next hnot =>
          have hcache : s.cache = none ∨ s.contextPool.lockedContextIds ≠ [] := by
            by_contra hboth
            rw [not_or, not_not] at hboth
            refine hnot ⟨Option.isSome_iff_ne_none.2 hboth.1, ?_⟩
            rw [isAnyFrameBeingRenderedOrDisplayed,
              ContextPool.isAnyContextLocked_eq_false hboth.2]
            rfl
          split
          · next hclosing =>
              rw [setState_closed]
              exact .answers hthread hclosing hcache
          · next hrunning => exact .resumes hthread hrunning hcache
  · next hthread =>
      split
      · next render hcache =>
          simp only [trySendNextFrame]
          split
          · next pool hborrow =>
              obtain ⟨hfree, rfl⟩ := ContextPool.borrowContextById_eq_some hborrow
              exact .sent render hthread hcache hfree
          · next hborrow =>
              refine .borrowed render hthread hcache fun hfree => ?_
              rw [ContextPool.borrowContextById, if_pos hfree] at hborrow
              cases hborrow
      · next hcache => exact .missing hthread hcache
  · next hthread =>
      split
      · next hmailbox => exact .waits hthread hmailbox
      · next message rest hmailbox => exact threaded_handleMessage hthread hmailbox

/-- The sums of a message that holds a context. -/
theorem count_finished {render : RenderReference} {rest : List (Message board)} (id : Int)
    (hmailbox : s.mailbox = .renderingFinished render :: rest) :
    s.holders.count id =
      ({ s with mailbox := rest } : System controller board).holders.count id +
        if id = render.contextId then 1 else 0 := by
  simp only [holders, finished, System.displays, hmailbox, List.filterMap_cons, Message.finished,
    Message.displayed, List.map_cons, List.count_append, List.count_cons, beq_iff_eq,
    eq_comm (a := render.contextId)]
  omega

theorem contextId_cache {cached : Option RenderReference} {render : RenderReference} :
    (RenderReference.cache cached render).contextId = render.contextId := by
  unfold RenderReference.cache
  split
  · split <;> rfl
  · rfl

theorem finished_tail {message : Message board} {rest : List (Message board)}
    (hmailbox : s.mailbox = message :: rest) (h : message.finished = none) :
    rest.filterMap Message.finished = s.finished := by
  rw [finished, hmailbox, List.filterMap_cons_none h]

theorem displayed_tail {message : Message board} {rest : List (Message board)}
    (hmailbox : s.mailbox = message :: rest) (h : message.displayed = none) :
    rest.filterMap Message.displayed = s.mailbox.filterMap Message.displayed := by
  rw [hmailbox, List.filterMap_cons_none h]

theorem owned_threaded (h : s.Owned capacity) (hstep : s.Threaded s') : s'.Owned capacity := by
  cases hstep with
  | waits => exact h
  | ignored item rest hthread hmailbox hcommands =>
      exact h.same rfl rfl (finished_tail hmailbox rfl)
        (congrArg (· ++ _) (displayed_tail hmailbox rfl)) rfl h.waits rfl h.running
  | drawn item rest early refreshMode hthread hmailbox hcommands hearly =>
      have hnone : early.filterMap EinkMessage.contextId = [] := by
        rcases hearly with rfl | ⟨mode, rfl⟩ <;> rfl
      refine h.same rfl rfl (finished_tail hmailbox rfl) ?_ rfl (by simp) rfl h.running
      simp only [System.displays, displayed_tail hmailbox rfl, List.filterMap_append, hnone,
        List.append_nil]
  | displayed render rest refreshMode hthread hmailbox hdisplaying =>
      have hdisplays := h.displays
      rw [hdisplaying, if_neg (by simp)] at hdisplays
      refine ⟨h.partition, fun id => ?_, ?_, by simp [hthread], by simp, h.running⟩
      · rw [← h.held id, count_finished id hmailbox]
        simp only [holders, finished, System.displays, List.filterMap_append,
          List.filterMap_cons, List.filterMap_nil, EinkMessage.contextId, List.count_append,
          List.count_cons, List.count_nil, beq_iff_eq, eq_comm (a := render.contextId)]
        omega
      · simp only [System.displays, hmailbox, List.filterMap_cons, Message.displayed,
          List.length_append] at hdisplays
        simp only [System.displays, List.filterMap_append, List.filterMap_cons,
          List.filterMap_nil, EinkMessage.contextId, List.length_append, List.length_cons,
          List.length_nil, if_true]
        omega
  | cached render rest hthread hmailbox hdisplaying =>
      have hlocked : render.contextId ∈ s.contextPool.lockedContextIds :=
        h.locked (by simp [holders, finished, hmailbox, Message.finished])
      refine ⟨h.partition.freeContext hlocked, fun id => ?_, ?_, by simp [hthread], ?_,
        h.running⟩
      · have hfree := (h.partition.count_free hlocked id).2
        have hheld := h.held id
        rw [← hfree, count_finished id hmailbox] at hheld
        simp only [holders, finished, System.displays, List.filterMap_append,
          List.filterMap_cons, List.filterMap_nil, EinkMessage.contextId, List.append_nil]
          at hheld ⊢
        omega
      · have hdisplays := h.displays
        simp only [System.displays, hmailbox, List.filterMap_cons, Message.displayed]
          at hdisplays
        simpa only [System.displays, List.filterMap_append, List.filterMap_cons,
          List.filterMap_nil, EinkMessage.contextId, List.append_nil] using hdisplays
      · rintro cached hcached
        cases hcached
        have hid : render.contextId ∈ ContextPool.ids capacity := by
          rw [← List.count_pos_iff, ← h.partition]
          exact Nat.lt_add_left _ (List.count_pos_iff.2 hlocked)
        rwa [contextId_cache]
  | returned contextId rest hthread hmailbox =>
      have hlocked : contextId ∈ s.contextPool.lockedContextIds :=
        h.locked (by simp [holders, System.displays, hmailbox, Message.displayed])
      have hdisplays := h.displays
      simp only [System.displays, hmailbox, List.filterMap_cons, Message.displayed,
        List.cons_append, List.length_cons] at hdisplays
      refine ⟨h.partition.freeContext hlocked, fun id => ?_, ?_, fun _ => rfl, h.cached,
        h.running⟩
      · have hfree := (h.partition.count_free hlocked id).2
        have hheld := h.held id
        rw [← hfree] at hheld
        simp only [holders, finished, System.displays, hmailbox, List.filterMap_cons,
          Message.finished, Message.displayed, List.count_append, List.count_cons, beq_iff_eq,
          eq_comm (a := contextId)] at hheld ⊢
        omega
      · simp only [System.displays]
        split at hdisplays
        · simpa using hdisplays
        · omega
  | coloured scheme rest hthread hmailbox =>
      exact h.same rfl rfl (finished_tail hmailbox rfl)
        (congrArg (· ++ _) (displayed_tail hmailbox rfl)) rfl h.waits rfl h.running
  | closed rest hthread hmailbox =>
      exact h.same rfl rfl (finished_tail hmailbox rfl)
        (congrArg (· ++ _) (displayed_tail hmailbox rfl)) rfl h.waits rfl h.running
  | closing rest hthread hmailbox hbusy =>
      exact h.same rfl rfl (finished_tail hmailbox rfl)
        (congrArg (· ++ _) (displayed_tail hmailbox rfl)) rfl h.waits rfl h.running
  | enqueued item hthread => exact h.same rfl rfl rfl rfl rfl (by simp) rfl h.running
  | notified hthread => exact h.same rfl rfl rfl rfl rfl (by simp) rfl h.running
  | sends render hthread hcache =>
      exact h.same rfl rfl rfl rfl rfl (fun _ => h.waits (.inl hthread)) rfl h.running
  | answers hthread hclosing hcache =>
      exact h.same rfl rfl rfl rfl rfl (by simp) rfl h.running
  | resumes hthread hrunning hcache =>
      exact h.same rfl rfl rfl rfl rfl (by simp) rfl h.running
  | sent render hthread hcache hfree =>
      have hdisplays := h.displays
      rw [h.waits (.inr hthread), if_neg (by simp)] at hdisplays
      refine ⟨h.partition.lockContext hfree, fun id => ?_, ?_, by simp, by simp, h.running⟩
      · rw [(h.partition.count_lock hfree id).2, ← h.held id]
        simp only [holders, finished, System.displays, List.filterMap_append,
          List.filterMap_cons, List.filterMap_nil, EinkMessage.contextId, List.count_append,
          List.count_cons, List.count_nil, beq_iff_eq, eq_comm (a := render.contextId)]
        omega
      · simp only [System.displays, List.length_append] at hdisplays
        simp only [System.displays, List.filterMap_append, List.filterMap_cons,
          List.filterMap_nil, EinkMessage.contextId, List.length_append, List.length_cons,
          List.length_nil, if_true]
        omega
  | borrowed render hthread hcache hlocked =>
      exact ⟨h.partition, h.held, h.displays, by simp, by simp, h.running⟩
  | missing hthread hcache => exact h.same rfl rfl rfl rfl rfl (by simp) rfl h.running

end System

/-! ## Runs -/

/-- The display service is not suspended, and answers before the timer ends. -/
def Action.Answered : Action controller board → Prop
  | .releaseTimeout => False
  | .switchPowerMode mode => mode = .active
  | _ => True

namespace System

variable {capacity : Nat} {s s' : System controller board}

theorem owned_step {action : Action controller board} (h : s.Owned capacity)
    (hanswered : action.Answered) : (s.step action).Owned capacity := by
  cases action with
  | draw item =>
      exact h.same rfl rfl (by simp [finished, step, Message.finished])
        (by simp [System.displays, step, Message.displayed]) rfl h.waits rfl h.running
  | changeColorScheme scheme =>
      exact h.same rfl rfl (by simp [finished, step, Message.finished])
        (by simp [System.displays, step, Message.displayed]) rfl h.waits rfl h.running
  | closeReason =>
      exact h.same rfl rfl (by simp [finished, step, Message.finished])
        (by simp [System.displays, step, Message.displayed]) rfl h.waits rfl h.running
  | einkMode mode =>
      exact h.same rfl rfl rfl
        (by simp [System.displays, step, sendEink, EinkMessage.contextId]) rfl h.waits rfl
        h.running
  | switchPowerMode mode =>
      cases hanswered
      exact h.same rfl rfl rfl rfl rfl h.waits rfl rfl
  | releaseTimeout => exact hanswered.elim
  | thread => exact owned_threaded h threaded_threadStep
  | worker => exact owned_worked h worked_workerStep
  | eink status prepared => exact owned_einkStep status prepared h

theorem owned_run {actions : List (Action controller board)} {s : System controller board}
    (h : s.Owned capacity) (hanswered : ∀ action ∈ actions, action.Answered) :
    (actions.foldl step s).Owned capacity := by
  induction actions generalizing s with
  | nil => exact h
  | cons action actions ih =>
      exact ih (owned_step h (hanswered action List.mem_cons_self)) fun later hlater =>
        hanswered later (List.mem_cons_of_mem action hlater)

/-- The worker draws in no context that is on its way to the display. -/
theorem Owned.contexts_worked (h : s.Owned capacity) (hstep : s.Worked s') {id : Int}
    (hid : id ∈ s.finished.map RenderReference.contextId ++ s.displays) :
    s'.contextPool.contexts id = s.contextPool.contexts id := by
  cases hstep with
  | drew contextId cmd commands refreshMode hworker =>
      refine Function.update_of_ne ?_ _ _
      rintro rfl
      have hnodup := h.nodup
      rw [holders, hworker, List.append_assoc] at hnodup
      exact (List.nodup_append.1 hnodup).2.2 id (by simp [Worker.held]) id hid rfl
  | _ => rfl

/-- Every context is free or held by one party, at most one frame is displayed, and what is
drawn goes to none of the contexts that are finished or displayed. -/
theorem contexts_owned (capacity : Nat) (scheme : ColorScheme) (eink : ServiceEink controller board)
    (actions : List (Action controller board)) (hrunning : eink.currentState = .running)
    (hanswered : ∀ action ∈ actions, action.Answered) :
    let s := actions.foldl step (init capacity scheme eink)
    (s.contextPool.freeContextIds ++ s.holders).Perm (ContextPool.ids capacity) ∧
      s.displays.length = (if s.displayingState = .displaying then 1 else 0) ∧
      ∀ id ∈ s.finished.map RenderReference.contextId ++ s.displays,
        s.workerStep.contextPool.contexts id = s.contextPool.contexts id := by
  intro s
  have h : s.Owned capacity := owned_run (owned_init hrunning) hanswered
  refine ⟨List.perm_iff_count.2 fun id => ?_, h.displays,
    fun id hid => h.contexts_worked worked_workerStep hid⟩
  rw [List.count_append, h.held id, h.partition id]

end System

end

def defaultColorScheme : ColorScheme where
  intensity colour := UInt8.ofNat colour
  shades := by decide

def clearedFrame : QueueItem smallBoard := ⟨[DrawCommand.clear], .guiRefreshFast⟩

/-- A frame on its way to the display. -/
def drawnFrame : List (Action pictures smallBoard) :=
  [.draw clearedFrame, .thread, .thread, .thread, .worker, .worker, .worker, .worker, .worker,
    .thread]

theorem contexts_owned_drawn :
    let s := drawnFrame.foldl System.step
      (System.init 2 defaultColorScheme (ServiceEink.init blankPanel .standard))
    (s.contextPool.freeContextIds ++ s.holders).Perm (ContextPool.ids 2) ∧
      s.displays.length = (if s.displayingState = .displaying then 1 else 0) ∧
      ∀ id ∈ s.finished.map RenderReference.contextId ++ s.displays,
        s.workerStep.contextPool.contexts id = s.contextPool.contexts id :=
  System.contexts_owned 2 defaultColorScheme (ServiceEink.init blankPanel .standard) drawnFrame
    rfl (by simp [drawnFrame, Action.Answered])

end MuditaOS.Gui

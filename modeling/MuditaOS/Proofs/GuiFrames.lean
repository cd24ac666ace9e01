import MuditaOS.Proofs.GuiContexts

/-!
# The last frame reaches the screen

A draw request is followed on its way: through the mailbox, the queue of commands, the worker,
the cache and the mailbox of the display service. A later request may take its place at any
point, but the last one is never lost, however the threads are interleaved, unless a change of
the colours overwrites the signal to render it. When nothing is left to do the screen shows
the last frame, pixel for pixel.
-/

namespace MuditaOS.Gui

open MuditaOS.Lib MuditaOS.Eink

section

variable {controller : Controller} {board : Board}

/-! ## Drawing over a cleared context -/

section

variable {scheme : ColorScheme} {picture other : Picture board}
  {commands done : List (DrawCommand board)} {cmd : DrawCommand board}

/-- The picture of these commands, in one of these colours. -/
def Drawn (schemes : ColorScheme → Prop) (commands : List (DrawCommand board))
    (picture : Picture board) : Prop :=
  ∃ scheme, schemes scheme ∧ picture = render scheme (blank board) commands

end

/-! ## Stages -/

/-- What is of no interest may come in. -/
theorem filterMap_append_none {α β : Type*} {f : α → Option β} {l : List α} {x : α}
    (h : f x = none) : (l ++ [x]).filterMap f = l.filterMap f := by
  rw [List.filterMap_append, List.filterMap_cons_none h, List.filterMap_nil, List.append_nil]

def Message.requested : Message board → Option (QueueItem board)
  | .draw item => some item
  | _ => none

def EinkMessage.imageId : EinkMessage → Option Int
  | .image contextId _ => some contextId
  | _ => none

def Worker.Free : Worker board → Prop
  | .waiting | .signalled _ => True
  | _ => False

namespace System

def requests (s : System controller board) : List (QueueItem board) :=
  s.mailbox.filterMap Message.requested

def images (s : System controller board) : List Int :=
  s.einkMailbox.filterMap EinkMessage.imageId

/-- The worker was told of the commands in the queue, or is about to be. -/
def Signalled (s : System controller board) : Prop :=
  s.thread = .notifying ∨ s.signallingQueue = some .render ∨ s.worker = .signalled .render

/-- No request is left that is newer than the queue. -/
structure Settled (s : System controller board) : Prop where
  requests : s.requests = []
  thread : ∀ item, s.thread ≠ .enqueueing item

/-- These commands are the last requested, and they are not rendered yet. -/
inductive Underway (commands : List (DrawCommand board)) (s : System controller board) : Prop
  | requested (item : QueueItem board) (hlast : s.requests.getLast? = some item)
      (hcommands : item.commands = commands)
  | enqueueing (item : QueueItem board) (hrequests : s.requests = [])
      (hqueue : s.commandsQueue = []) (hthread : s.thread = .enqueueing item)
      (hcommands : item.commands = commands)
  | queued (item : QueueItem board) (hsettled : s.Settled) (hqueue : s.commandsQueue = [item])
      (hcommands : item.commands = commands) (hsignalled : s.Signalled)
  | dequeued (item : QueueItem board) (hsettled : s.Settled) (hqueue : s.commandsQueue = [])
      (hworker : s.worker = .dequeued item) (hcommands : item.commands = commands)
  | rendering (contextId : Int) (done rest : List (DrawCommand board))
      (refreshMode : RefreshModes) (picture : Picture board) (hsettled : s.Settled)
      (hqueue : s.commandsQueue = [])
      (hworker : s.worker = .rendering contextId rest refreshMode)
      (hcommands : commands = done ++ rest)
      (hcontext : s.contextPool.contexts contextId = render s.colorScheme picture done)

/-- Where the picture of the last frame is. -/
inductive Place (schemes : ColorScheme → Prop) (failing : Prop)
    (commands : List (DrawCommand board)) (s : System controller board) : Prop
  | finished (reference : RenderReference) (hlast : s.finished.getLast? = some reference)
      (hdrawn : Drawn schemes commands (s.contextPool.contexts reference.contextId))
  | cached (reference : RenderReference) (hfinished : s.finished = [])
      (hcache : s.cache = some reference)
      (hdrawn : Drawn schemes commands (s.contextPool.contexts reference.contextId))
      (hwaits : s.displayingState = .displaying ∨ s.thread = .returned ∨ s.thread = .sending)
  | displayed (contextId : Int) (hfinished : s.finished = []) (hcache : s.cache = none)
      (himages : s.images = [contextId])
      (hdrawn : Drawn schemes commands (s.contextPool.contexts contextId))
  | shown (hfinished : s.finished = []) (hcache : s.cache = none) (himages : s.images = [])
      (hshown : failing ∧ s.eink.previousContext = none ∨
        ∃ picture, s.eink.previousContext = some picture.context ∧ Drawn schemes commands picture)

/-- The commands are rendered, and no newer ones are on their way. -/
structure Rendered (schemes : ColorScheme → Prop) (failing : Prop)
    (commands : List (DrawCommand board)) (s : System controller board) : Prop where
  settled : s.Settled
  queue : s.commandsQueue = []
  worker : s.worker.Free
  place : s.Place schemes failing commands

/-! ## What the rest of the system keeps -/

/-- The state a cancellation leaves the display service in, when it has handled its mailbox. -/
def cancelled : Bool → List EinkMessage → Bool
  | state, [] => state
  | _, .image _ _ :: messages => cancelled false messages
  | _, .cancelRefresh :: messages => cancelled true messages
  | state, _ :: messages => cancelled state messages

/-- Another image is going to be sent. -/
def Owed (s : System controller board) : Prop :=
  s.cache.isSome ∨ s.worker.held ≠ [] ∨ s.finished ≠ []

structure Coherent (schemes : ColorScheme → Prop) (failing : Prop) (capacity : Nat)
    (s : System controller board) : Prop where
  owned : s.Owned capacity
  eink : s.eink.Inv
  colorScheme : schemes s.colorScheme
  colorSchemeUpdate : schemes s.colorSchemeUpdate
  colours : ∀ scheme, Message.changeColorScheme scheme ∈ s.mailbox → schemes scheme
  modes : ∀ mode, EinkMessage.einkMode mode ∈ s.einkMailbox → failing
  refreshes : s.eink.einkDisplayState = .needRefresh →
    ∃ message, EinkMessage.refresh message ∈ s.einkMailbox
  owes : cancelled (s.eink.einkDisplayState = .canceled) s.einkMailbox = true → s.Owed

variable {capacity : Nat} {schemes : ColorScheme → Prop} {failing : Prop}
  {commands : List (DrawCommand board)} {s s' : System controller board}

/-! ## Frames underway -/

theorem Settled.frame (h : s.Settled) (hrequests : s'.requests = s.requests)
    (hthread : ∀ item, s'.thread = .enqueueing item → s.thread = .enqueueing item) :
    s'.Settled where
  requests := hrequests.trans h.requests
  thread item hitem := h.thread item (hthread item hitem)

/-- A step that has nothing to do with the frame. -/
theorem Underway.frame (h : s.Underway commands) (hrequests : s'.requests = s.requests)
    (hqueue : s'.commandsQueue = s.commandsQueue) (hworker : s'.worker = s.worker)
    (hscheme : s'.colorScheme = s.colorScheme)
    (hcontexts : s'.contextPool.contexts = s.contextPool.contexts)
    (hthread : ∀ item, s'.thread = .enqueueing item ↔ s.thread = .enqueueing item)
    (hsignalled : s.Signalled → s'.Signalled) : s'.Underway commands := by
  cases h with
  | requested item hlast hcommands => exact .requested item (hrequests ▸ hlast) hcommands
  | enqueueing item hnone hempty henqueueing hcommands =>
      exact .enqueueing item (hrequests.trans hnone) (hqueue.trans hempty)
        ((hthread item).2 henqueueing) hcommands
  | queued item hsettled hone hcommands hsignal =>
      exact .queued item (hsettled.frame hrequests fun item => (hthread item).1)
        (hqueue.trans hone) hcommands (hsignalled hsignal)
  | dequeued item hsettled hempty hdequeued hcommands =>
      exact .dequeued item (hsettled.frame hrequests fun item => (hthread item).1)
        (hqueue.trans hempty) (hworker.trans hdequeued) hcommands
  | rendering contextId done rest refreshMode picture hsettled hempty hrendering hcommands
      hcontext =>
      exact .rendering contextId done rest refreshMode picture
        (hsettled.frame hrequests fun item => (hthread item).1) (hqueue.trans hempty)
        (hworker.trans hrendering) hcommands (by rw [hcontexts, hscheme, hcontext])

theorem Rendered.frame (h : s.Rendered schemes failing commands)
    (hrequests : s'.requests = s.requests) (hqueue : s'.commandsQueue = s.commandsQueue)
    (hthread : ∀ item, s'.thread = .enqueueing item ↔ s.thread = .enqueueing item)
    (hworker : s'.worker.Free) (hplace : s'.Place schemes failing commands) :
    s'.Rendered schemes failing commands where
  settled := h.settled.frame hrequests fun item => (hthread item).1
  queue := hqueue.trans h.queue
  worker := hworker
  place := hplace

/-- The last requested frame is on its way, or its picture is. -/
def Located (schemes : ColorScheme → Prop) (failing : Prop)
    (commands : List (DrawCommand board)) (s : System controller board) : Prop :=
  s.Underway commands ∨ s.Rendered schemes failing commands

/-! ### The service's thread -/

theorem requests_tail {message : Message board} {rest : List (Message board)}
    (hmailbox : s.mailbox = message :: rest) (h : message.requested = none) :
    rest.filterMap Message.requested = s.requests := by
  rw [requests, hmailbox, List.filterMap_cons_none h]

/-- A request that is taken out is the last one, or the last one is behind it. -/
theorem Located.draw (h : s.Located schemes failing commands) {item : QueueItem board}
    {rest : List (Message board)} (hmailbox : s.mailbox = .draw item :: rest) :
    (∃ last, (rest.filterMap Message.requested).getLast? = some last ∧
        last.commands = commands) ∨
      rest.filterMap Message.requested = [] ∧ item.commands = commands := by
  have hrequests : s.requests = item :: rest.filterMap Message.requested := by
    rw [requests, hmailbox]
    rfl
  have hne : s.requests ≠ [] := by simp [hrequests]
  rcases h with hunderway | hrendered
  · cases hunderway with
    | requested last hlast hcommands =>
        rw [hrequests] at hlast
        cases hrest : rest.filterMap Message.requested with
        | nil =>
            rw [hrest] at hlast
            cases hlast
            exact .inr ⟨rfl, hcommands⟩
        | cons next later =>
            rw [hrest, List.getLast?_cons_cons] at hlast
            exact .inl ⟨last, hlast, hcommands⟩
    | enqueueing item hnone hempty henqueueing hcommands => exact absurd hnone hne
    | queued item hsettled hone hcommands hsignal => exact absurd hsettled.requests hne
    | dequeued item hsettled hempty hdequeued hcommands => exact absurd hsettled.requests hne
    | rendering contextId done rest refreshMode picture hsettled hempty hrendering hcommands
        hcontext => exact absurd hsettled.requests hne
  · exact absurd hrendered.settled.requests hne

theorem Owned.nothing (h : s.Owned capacity) (hidle : s.displayingState = .idle) :
    s.displays = [] := by
  have := h.displays
  rw [hidle, if_neg (by simp)] at this
  exact List.length_eq_zero_iff.1 this

/-- A locked context of no displayed frame is drawn in, or finished. -/
theorem Owned.working (h : s.Owned capacity) (hidle : s.displayingState = .idle)
    (hlocked : s.contextPool.lockedContextIds ≠ []) : s.worker.held ≠ [] ∨ s.finished ≠ [] := by
  obtain ⟨id, hid⟩ := List.exists_mem_of_ne_nil _ hlocked
  rw [← List.count_pos_iff, ← h.held id, List.count_pos_iff, holders,
    h.nothing hidle, List.append_nil, List.mem_append] at hid
  exact hid.imp List.ne_nil_of_mem fun hmem hnone => by simp [hnone] at hmem

/-- Nothing is locked while the rendered frame waits in the cache and none is displayed. -/
theorem Rendered.unlocked (h : s.Rendered schemes failing commands) (howned : s.Owned capacity)
    (hfinished : s.finished = []) (hidle : s.displayingState = .idle) :
    s.contextPool.lockedContextIds = [] := by
  have hheld : s.worker.held = [] := by
    have := h.worker
    unfold Worker.held
    split
    · next hworker => rw [hworker] at this; exact this.elim
    · rfl
  by_contra hlocked
  exact (howned.working hidle hlocked).elim (absurd hheld) (absurd hfinished)

theorem Owned.images (h : s.Owned capacity) (hidle : s.displayingState = .idle) :
    s.images = [] := by
  have heink := (List.append_eq_nil_iff.1 (h.nothing hidle)).2
  rw [List.filterMap_eq_nil_iff] at heink
  refine List.filterMap_eq_nil_iff.2 fun message hmem => ?_
  have := heink message hmem
  cases message with
  | image contextId refreshMode => cases this
  | _ => rfl

/-- A cached frame is sent when that of another context was displayed. -/
def Waits (s : System controller board) : Prop :=
  s.displayingState = .displaying ∨ s.thread = .returned ∨ s.thread = .sending

theorem Place.frame (h : s.Place schemes failing commands) (hfinished : s'.finished = s.finished)
    (hcontexts : s'.contextPool.contexts = s.contextPool.contexts) (hcache : s'.cache = s.cache)
    (himages : s'.images = s.images)
    (hcontext : s'.eink.previousContext = s.eink.previousContext)
    (hwaits : ∀ reference, s.finished = [] → s.cache = some reference → s.Waits → s'.Waits) :
    s'.Place schemes failing commands := by
  cases h with
  | finished reference hlast hdrawn =>
      exact .finished reference (hfinished ▸ hlast) (hcontexts ▸ hdrawn)
  | cached reference hnone hsome hdrawn hwaiting =>
      exact .cached reference (hfinished.trans hnone) (hcache.trans hsome) (hcontexts ▸ hdrawn)
        (hwaits reference hnone hsome hwaiting)
  | displayed contextId hnone hempty hone hdrawn =>
      exact .displayed contextId (hfinished.trans hnone) (hcache.trans hempty)
        (himages.trans hone) (hcontexts ▸ hdrawn)
  | shown hnone hempty hgone hshown =>
      exact .shown (hfinished.trans hnone) (hcache.trans hempty) (himages.trans hgone)
        (hcontext ▸ hshown)

/-- A message that has nothing to do with frames. -/
theorem Located.other (h : s.Located schemes failing commands) {message : Message board}
    {rest : List (Message board)} (hmailbox : s.mailbox = message :: rest)
    (hrequested : message.requested = none) (hfinished : message.finished = none)
    (hmailbox' : s'.mailbox = rest) (hqueue : s'.commandsQueue = s.commandsQueue)
    (hworker : s'.worker = s.worker) (hscheme : s'.colorScheme = s.colorScheme)
    (hcontexts : s'.contextPool.contexts = s.contextPool.contexts)
    (hthread : ∀ item, s'.thread = .enqueueing item ↔ s.thread = .enqueueing item)
    (hsignalled : s.Signalled → s'.Signalled) (hcache : s'.cache = s.cache)
    (heink : s'.einkMailbox = s.einkMailbox) (hcontext : s'.eink = s.eink)
    (hwaits : s.Waits → s'.Waits) : s'.Located schemes failing commands := by
  have hrequests : s'.requests = s.requests := by
    rw [requests, hmailbox', requests_tail hmailbox hrequested]
  have hsame : s'.finished = s.finished := by
    rw [finished, hmailbox', finished_tail hmailbox hfinished]
  refine h.imp (fun h => h.frame hrequests hqueue hworker hscheme hcontexts hthread hsignalled)
    fun h => h.frame hrequests hqueue hthread (hworker ▸ h.worker)
      (h.place.frame hsame hcontexts hcache (by rw [images, images, heink])
        (by rw [hcontext]) fun _ _ _ => hwaits)

/-- A finished drawing that is taken out is the last one, or the last one is behind it. -/
theorem Place.finish (h : s.Place schemes failing commands) {render : RenderReference}
    {rest : List (Message board)} (hmailbox : s.mailbox = .renderingFinished render :: rest) :
    (∃ last, (rest.filterMap Message.finished).getLast? = some last ∧
        Drawn schemes commands (s.contextPool.contexts last.contextId)) ∨
      rest.filterMap Message.finished = [] ∧
        Drawn schemes commands (s.contextPool.contexts render.contextId) := by
  have hfinished : s.finished = render :: rest.filterMap Message.finished := by
    rw [System.finished, hmailbox]
    rfl
  have hne : s.finished ≠ [] := by simp [hfinished]
  cases h with
  | finished last hlast hdrawn =>
      rw [hfinished] at hlast
      cases hrest : rest.filterMap Message.finished with
      | nil =>
          rw [hrest] at hlast
          cases hlast
          exact .inr ⟨rfl, hdrawn⟩
      | cons next later =>
          rw [hrest, List.getLast?_cons_cons] at hlast
          exact .inl ⟨last, hlast, hdrawn⟩
  | cached reference hnone hsome hdrawn hwaiting => exact absurd hnone hne
  | displayed contextId hnone hempty hone hdrawn => exact absurd hnone hne
  | shown hnone hempty hgone hshown => exact absurd hnone hne

/-- A step of the worker that does not take from the queue. -/
theorem Located.work (h : s.Located schemes failing commands) (hrequests : s'.requests = s.requests)
    (hqueue : s'.commandsQueue = s.commandsQueue) (hthread : s'.thread = s.thread)
    (hsignalled : s.commandsQueue ≠ [] → s.Signalled → s'.Signalled)
    (hdequeued : s.Settled → s.commandsQueue = [] → ∀ item, s.worker = .dequeued item →
      item.commands = commands → s'.Located schemes failing commands)
    (hrendering : s.Settled → s.commandsQueue = [] → ∀ contextId done rest refreshMode picture,
      s.worker = .rendering contextId rest refreshMode → commands = done ++ rest →
        s.contextPool.contexts contextId = render s.colorScheme picture done →
          s'.Located schemes failing commands)
    (hrendered : s.Rendered schemes failing commands →
      s'.worker.Free ∧ s'.Place schemes failing commands) :
    s'.Located schemes failing commands := by
  have hitem : ∀ item, s'.thread = .enqueueing item ↔ s.thread = .enqueueing item := by
    simp [hthread]
  rcases h with hunderway | h
  · cases hunderway with
    | requested item hlast hcommands =>
        exact .inl (.requested item (hrequests ▸ hlast) hcommands)
    | enqueueing item hnone hempty henqueueing hcommands =>
        exact .inl (.enqueueing item (hrequests.trans hnone) (hqueue.trans hempty)
          (hthread.trans henqueueing) hcommands)
    | queued item hsettled hone hcommands hsignal =>
        exact .inl (.queued item (hsettled.frame hrequests fun item => (hitem item).1)
          (hqueue.trans hone) hcommands (hsignalled (by simp [hone]) hsignal))
    | dequeued item hsettled hempty hworker hcommands =>
        exact hdequeued hsettled hempty item hworker hcommands
    | rendering contextId done rest refreshMode picture hsettled hempty hworker hcommands
        hcontext =>
        exact hrendering hsettled hempty contextId done rest refreshMode picture hworker hcommands
          hcontext
  · exact .inr (h.frame hrequests hqueue hitem (hrendered h).1 (hrendered h).2)

/-- A worker that was not told leaves it to be told. -/
theorem Signalled.keep (h : s.Signalled) (hworker : s.worker ≠ .signalled .render)
    (hthread : s'.thread = s.thread) (hsignalling : s'.signallingQueue = s.signallingQueue) :
    s'.Signalled := by
  rcases h with hnotifying | hrender | hrender
  · exact .inl (hthread.trans hnotifying)
  · exact .inr (.inl (hsignalling.trans hrender))
  · exact absurd hrender hworker

/-- An image is taken over, or forgotten where its transfer fails. -/
theorem context_image (contextId : Int) (refreshMode : RefreshModes)
    (status : EinkStatus controller) (prepared : Bool) (hrunning : s.eink.currentState = .running) :
    let eink := (s.eink.handle (s.einkEvent (.image contextId refreshMode) status prepared)).1
    eink.previousContext = some (s.contextPool.contexts contextId).context ∨
      status ≠ .einkOK ∧ eink.previousContext = none := by
  intro eink
  have hplan := @planned_plan _ _ s.eink (s.contextPool.contexts contextId).context
    (translateToEinkRefreshMode refreshMode)
  have hcontext : eink.previousContext = (s.eink.updateImage
      (s.contextPool.contexts contextId).context
      (s.eink.plan (s.contextPool.contexts contextId).context
        (translateToEinkRefreshMode refreshMode))
      (translateToEinkRefreshMode refreshMode) status).1.previousContext := by
    simp only [eink, einkEvent, ServiceEink.handle, ServiceEink.handleImageMessage, hrunning,
      ContextPool.peekContext]
    split <;> rfl
  rw [hcontext]
  unfold ServiceEink.updateImage
  split
  · exact .inl (congrArg some hplan.previousContext)
  · exact .inl (congrArg some hplan.previousContext)
  · exact .inr ⟨by simp, rfl⟩

/-- Another message changes nothing about the picture, or forgets it. -/
theorem context_other {message : EinkMessage} {status : EinkStatus controller} (prepared : Bool)
    (himage : message.imageId = none) (hfails : status ≠ .einkOK → failing)
    (hmode : ∀ mode, message = .einkMode mode → failing) :
    let eink := (s.eink.handle (s.einkEvent message status prepared)).1
    eink.previousContext = s.eink.previousContext ∨ failing ∧ eink.previousContext = none := by
  cases message with
  | image contextId refreshMode => cases himage
  | refresh message =>
      simp only [einkEvent, ServiceEink.handle, ServiceEink.handleRefreshMessage]
      split
      · unfold ServiceEink.refresh
        cases status with
        | einkOK => cases s.eink.previousRefreshStatus <;> exact .inl rfl
        | error panel =>
            cases s.eink.previousRefreshStatus <;> exact .inr ⟨hfails (by simp), rfl⟩
      · exact .inl rfl
  | cancelRefresh =>
      simp only [einkEvent, ServiceEink.handle, ServiceEink.handleCancelRefreshMessage]
      split <;> exact .inl rfl
  | prepareEarly refreshMode =>
      simp only [einkEvent, ServiceEink.handle, ServiceEink.handlePrepareEarlyRequest]
      split <;> exact .inl rfl
  | einkMode mode => exact .inr ⟨hmode mode rfl, rfl⟩

theorem Located.handled (h : s.Located schemes failing commands)
    (hrunning : s.eink.currentState = .running) {message : EinkMessage}
    {rest : List EinkMessage} {status : EinkStatus controller} {prepared : Bool}
    (hmailbox : s.einkMailbox = message :: rest) (hfails : status ≠ .einkOK → failing)
    (hmode : ∀ mode, message = .einkMode mode → failing)
    (himages : s'.images = rest.filterMap EinkMessage.imageId)
    (hrequests : s'.requests = s.requests) (hfinished : s'.finished = s.finished)
    (heink : s'.eink = (s.eink.handle (s.einkEvent message status prepared)).1)
    (hqueue : s'.commandsQueue = s.commandsQueue) (hworker : s'.worker = s.worker)
    (hscheme : s'.colorScheme = s.colorScheme)
    (hcontexts : s'.contextPool.contexts = s.contextPool.contexts)
    (hthread : s'.thread = s.thread) (hsignalling : s'.signallingQueue = s.signallingQueue)
    (hcache : s'.cache = s.cache) (hdisplaying : s'.displayingState = s.displayingState) :
    s'.Located schemes failing commands := by
  have hitem : ∀ item, s'.thread = .enqueueing item ↔ s.thread = .enqueueing item := by
    simp [hthread]
  refine h.imp (fun h => h.frame hrequests hqueue hworker hscheme hcontexts hitem
      (by simp [Signalled, hthread, hsignalling, hworker]))
    fun h => h.frame hrequests hqueue hitem (hworker ▸ h.worker) ?_
  cases h.place with
  | finished reference hlast hdrawn =>
      exact .finished reference (hfinished ▸ hlast) (hcontexts ▸ hdrawn)
  | cached reference hnone hsome hdrawn hwaiting =>
      exact .cached reference (hfinished.trans hnone) (hcache.trans hsome) (hcontexts ▸ hdrawn)
        (by rwa [hdisplaying, hthread])
  | displayed contextId hnone hempty hone hdrawn =>
      rw [images, hmailbox] at hone
      cases himage : message.imageId with
      | none =>
          rw [List.filterMap_cons_none himage] at hone
          exact .displayed contextId (hfinished.trans hnone) (hcache.trans hempty)
            (himages.trans hone) (hcontexts ▸ hdrawn)
      | some id =>
          rw [List.filterMap_cons_some himage] at hone
          obtain ⟨rfl, hgone⟩ := List.cons.inj hone
          refine .shown (hfinished.trans hnone) (hcache.trans hempty) (himages.trans hgone) ?_
          cases message with
          | image contextId refreshMode =>
              cases himage
              rw [heink]
              rcases context_image _ refreshMode status prepared hrunning with
                htaken | ⟨hstatus, hforgotten⟩
              · exact .inr ⟨_, htaken, hdrawn⟩
              · exact .inl ⟨hfails hstatus, hforgotten⟩
          | _ => cases himage
  | shown hnone hempty hgone hshown =>
      rw [images, hmailbox] at hgone
      have himage : message.imageId = none := by
        cases hid : message.imageId with
        | none => rfl
        | some id => rw [List.filterMap_cons_some hid] at hgone; cases hgone
      rw [List.filterMap_cons_none himage] at hgone
      refine .shown (hfinished.trans hnone) (hcache.trans hempty) (himages.trans hgone) ?_
      rw [heink]
      rcases context_other prepared himage hfails hmode with hsame | hforgotten
      · rw [hsame]
        exact hshown
      · exact .inl hforgotten

theorem cancelled_append {messages : List EinkMessage} : ∀ {state : Bool}
    {before : List EinkMessage},
    cancelled state (before ++ messages) = cancelled (cancelled state before) messages := by
  intro state before
  induction before generalizing state with
  | nil => rfl
  | cons message before ih => cases message <;> exact ih

theorem cancelled_mono {messages : List EinkMessage} : ∀ {state state' : Bool},
    (state = true → state' = true) → cancelled state messages = true →
      cancelled state' messages = true := by
  induction messages with
  | nil => exact fun himp h => himp h
  | cons message messages ih =>
      intro state state' himp h
      cases message with
      | image contextId refreshMode => exact h
      | cancelRefresh => exact h
      | refresh message => exact ih himp h
      | prepareEarly refreshMode => exact ih himp h
      | einkMode mode => exact ih himp h

theorem Owed.frame (h : s.Owed) (hcache : s'.cache = s.cache) (hworker : s'.worker = s.worker)
    (hfinished : s'.finished = s.finished) : s'.Owed := by
  rw [Owed, hcache, hworker, hfinished]
  exact h

/-- A step that leaves the display service to its mailbox. -/
theorem Coherent.frame (h : s.Coherent schemes failing capacity) (howned : s'.Owned capacity)
    (heink : s'.eink = s.eink) (hscheme : schemes s'.colorScheme)
    (hupdate : schemes s'.colorSchemeUpdate)
    (hcolours : ∀ scheme, Message.changeColorScheme scheme ∈ s'.mailbox →
      Message.changeColorScheme scheme ∈ s.mailbox)
    (extra : List EinkMessage) (hextra : s'.einkMailbox = s.einkMailbox ++ extra)
    (hmodes : ∀ mode, EinkMessage.einkMode mode ∉ extra)
    (howes : cancelled (cancelled (s.eink.einkDisplayState = .canceled) s.einkMailbox) extra =
      true → s'.Owed) : s'.Coherent schemes failing capacity where
  owned := howned
  eink := heink ▸ h.eink
  colorScheme := hscheme
  colorSchemeUpdate := hupdate
  colours scheme hmem := h.colours scheme (hcolours scheme hmem)
  modes mode hmem := by
    rw [hextra] at hmem
    exact h.modes mode ((List.mem_append.1 hmem).resolve_right (hmodes mode))
  refreshes hneed := by
    rw [heink] at hneed
    obtain ⟨message, hmem⟩ := h.refreshes hneed
    exact ⟨message, hextra ▸ List.mem_append_left _ hmem⟩
  owes hcancelled := by
    rw [heink, hextra, cancelled_append] at hcancelled
    exact howes hcancelled

/-- A message of the display service cancels nothing that it was not to cancel. -/
theorem cancelled_handle {message : EinkMessage} {rest : List EinkMessage}
    {status : EinkStatus controller} {prepared : Bool} (hrunning : s.eink.currentState = .running)
    (h : cancelled ((s.eink.handle (s.einkEvent message status prepared)).1.einkDisplayState =
      .canceled) rest = true) :
    cancelled (s.eink.einkDisplayState = .canceled) (message :: rest) = true := by
  cases message with
  | image contextId refreshMode =>
      show cancelled false rest = true
      exact cancelled_mono (fun hcanceled => absurd (of_decide_eq_true hcanceled)
        (ServiceEink.step_image_state hrunning)) h
  | refresh message =>
      refine cancelled_mono (fun hcanceled => ?_) h
      rw [decide_eq_true_eq] at hcanceled ⊢
      simp only [einkEvent, ServiceEink.handle, ServiceEink.handleRefreshMessage] at hcanceled
      split at hcanceled
      · cases hcanceled
      · exact hcanceled
  | cancelRefresh =>
      show cancelled true rest = true
      exact cancelled_mono (fun _ => rfl) h
  | prepareEarly refreshMode =>
      refine cancelled_mono (fun hcanceled => ?_) h
      rw [decide_eq_true_eq] at hcanceled ⊢
      simp only [einkEvent, ServiceEink.handle, ServiceEink.handlePrepareEarlyRequest]
        at hcanceled
      split at hcanceled <;> exact hcanceled
  | einkMode mode => exact h

/-- A refresh that is needed was asked for just now, or before by another message. -/
theorem needs_handle {message : EinkMessage} {status : EinkStatus controller} {prepared : Bool}
    (hrunning : s.eink.currentState = .running)
    (h : (s.eink.handle (s.einkEvent message status prepared)).1.einkDisplayState = .needRefresh) :
    (∃ refreshMessage, (s.eink.handle (s.einkEvent message status prepared)).2 =
        [.refreshMessage refreshMessage]) ∨
      s.eink.einkDisplayState = .needRefresh ∧
        (s.eink.handle (s.einkEvent message status prepared)).2 = [] := by
  cases message with
  | image contextId refreshMode =>
      simp only [einkEvent, ServiceEink.handle, ServiceEink.handleImageMessage, hrunning] at h ⊢
      split at h
      · next hrequired => exact .inl ⟨_, by rw [if_pos hrequired]⟩
      · cases h
  | refresh message =>
      simp only [einkEvent, ServiceEink.handle, ServiceEink.handleRefreshMessage] at h
      split at h
      · cases h
      · next hneed => exact absurd h hneed
  | cancelRefresh =>
      simp only [einkEvent, ServiceEink.handle, ServiceEink.handleCancelRefreshMessage] at h
      split at h
      · cases h
      · next hneed => exact absurd h hneed
  | prepareEarly refreshMode =>
      simp only [einkEvent, ServiceEink.handle, ServiceEink.handlePrepareEarlyRequest] at h
      split at h <;> exact .inr ⟨h, rfl⟩
  | einkMode mode => exact .inr ⟨h, rfl⟩

theorem inv_handle {message : EinkMessage} {status : EinkStatus controller} {prepared : Bool}
    (h : s.eink.Inv) : (s.eink.handle (s.einkEvent message status prepared)).1.Inv :=
  ServiceEink.inv_step h

theorem Coherent.handled (h : s.Coherent schemes failing capacity) {message : EinkMessage}
    {rest extra : List EinkMessage} {status : EinkStatus controller} {prepared : Bool}
    (hmailbox : s.einkMailbox = message :: rest) (howned : s'.Owned capacity)
    (heink : s'.eink = (s.eink.handle (s.einkEvent message status prepared)).1)
    (hextra : s'.einkMailbox = rest ++ extra)
    (hrefresh : ∀ sent ∈ extra, ∃ refreshMessage, sent = .refresh refreshMessage)
    (hsent : ∀ refreshMessage, (s.eink.handle (s.einkEvent message status prepared)).2 =
      [.refreshMessage refreshMessage] → .refresh refreshMessage ∈ extra)
    (hanswered : (s.eink.handle (s.einkEvent message status prepared)).2 = [] →
      message.contextId = none)
    (hscheme : s'.colorScheme = s.colorScheme)
    (hupdate : s'.colorSchemeUpdate = s.colorSchemeUpdate)
    (hcolours : ∀ scheme, Message.changeColorScheme scheme ∈ s'.mailbox →
      Message.changeColorScheme scheme ∈ s.mailbox) (howed : s.Owed → s'.Owed) :
    s'.Coherent schemes failing capacity where
  owned := howned
  eink := heink ▸ inv_handle h.eink
  colorScheme := hscheme ▸ h.colorScheme
  colorSchemeUpdate := hupdate ▸ h.colorSchemeUpdate
  colours scheme hmem := h.colours scheme (hcolours scheme hmem)
  modes mode hmem := by
    rw [hextra] at hmem
    rcases List.mem_append.1 hmem with hrest | hnew
    · exact h.modes mode (hmailbox ▸ List.mem_cons_of_mem _ hrest)
    · obtain ⟨_, hmode⟩ := hrefresh _ hnew
      cases hmode
  refreshes hneed := by
    rw [heink] at hneed
    rw [hextra]
    rcases needs_handle h.owned.running hneed with ⟨refreshMessage, hone⟩ | ⟨hneed, hnone⟩
    · exact ⟨refreshMessage, List.mem_append_right _ (hsent refreshMessage hone)⟩
    · obtain ⟨refreshMessage, hmem⟩ := h.refreshes hneed
      rw [hmailbox] at hmem
      refine ⟨refreshMessage, List.mem_append_left _ ((List.mem_cons.1 hmem).resolve_left ?_)⟩
      rintro rfl
      cases hanswered hnone
  owes hcancelled := by
    have hsame : ∀ {state : Bool} {extra : List EinkMessage},
        (∀ sent ∈ extra, ∃ refreshMessage, sent = .refresh refreshMessage) →
          cancelled state extra = state := by
      intro state extra hrefresh
      induction extra with
      | nil => rfl
      | cons sent extra ih =>
          obtain ⟨refreshMessage, rfl⟩ := hrefresh sent List.mem_cons_self
          exact ih fun later hlater => hrefresh later (List.mem_cons_of_mem _ hlater)
    rw [heink, hextra, cancelled_append, hsame hrefresh] at hcancelled
    exact howed (h.owes (hmailbox ▸ cancelled_handle h.owned.running hcancelled))

end System

/-! ## Runs -/

/-- The display service answers in time, and the colours are not changed while the worker is to
be told of a frame. -/
def System.Orderly (s : System controller board) : Action controller board → Prop
  | .switchPowerMode mode => mode = .active
  | .releaseTimeout => False
  | .thread => s.signallingQueue = some .render →
      ∀ scheme rest, s.mailbox ≠ .changeColorScheme scheme :: rest
  | _ => True

namespace System

variable {capacity : Nat} {schemes : ColorScheme → Prop} {failing : Prop}
  {commands : List (DrawCommand board)} {s s' : System controller board}

theorem Orderly.answered {action : Action controller board} (h : s.Orderly action) :
    action.Answered := by
  cases action with
  | switchPowerMode mode => exact h
  | releaseTimeout => exact h
  | _ => trivial

/-- Nothing is left to do. -/
structure Quiet (s : System controller board) : Prop where
  mailbox : s.mailbox = []
  thread : s.thread = .ready
  signallingQueue : s.signallingQueue = none
  worker : s.worker = .waiting
  einkMailbox : s.einkMailbox = []

/-- When nothing is left to do the picture of the last frame was displayed. -/
theorem Located.shown (h : s.Located schemes failing commands) (howned : s.Owned capacity)
    (hquiet : s.Quiet) :
    s.cache = none ∧ (failing ∧ s.eink.previousContext = none ∨
      ∃ picture, s.eink.previousContext = some picture.context ∧
        Drawn schemes commands picture) := by
  have hfinished : s.finished = [] := by rw [finished, hquiet.mailbox]; rfl
  have hdisplays : s.displays = [] := by
    rw [System.displays, hquiet.mailbox, hquiet.einkMailbox]
    rfl
  rcases h with hunderway | hrendered
  · cases hunderway with
    | requested item hlast hcommands =>
        rw [requests, hquiet.mailbox] at hlast
        cases hlast
    | enqueueing item hnone hempty henqueueing hcommands =>
        rw [hquiet.thread] at henqueueing
        cases henqueueing
    | queued item hsettled hone hcommands hsignal =>
        simp [Signalled, hquiet.thread, hquiet.signallingQueue, hquiet.worker] at hsignal
    | dequeued item hsettled hempty hdequeued hcommands =>
        rw [hquiet.worker] at hdequeued
        cases hdequeued
    | rendering contextId done rest refreshMode picture hsettled hempty hrendering hcommands
        hcontext =>
        rw [hquiet.worker] at hrendering
        cases hrendering
  · cases hrendered.place with
    | finished reference hlast hdrawn =>
        rw [hfinished] at hlast
        cases hlast
    | cached reference hnone hsome hdrawn hwaiting =>
        have hdisplaying : s.displayingState = .displaying :=
          hwaiting.resolve_right (by simp [hquiet.thread])
        have hone := howned.displays
        rw [hdisplays, hdisplaying] at hone
        cases hone
    | displayed contextId hnone hempty hone hdrawn =>
        rw [images, hquiet.einkMailbox] at hone
        cases hone
    | shown hnone hempty hgone hshown => exact ⟨hempty, hshown⟩

/-- When nothing is left to do the display is not waiting either. -/
theorem Coherent.idle (h : s.Coherent schemes failing capacity) (hquiet : s.Quiet)
    (hcache : s.cache = none) : s.eink.einkDisplayState = .idle := by
  cases hstate : s.eink.einkDisplayState with
  | idle => rfl
  | needRefresh =>
      obtain ⟨message, hmem⟩ := h.refreshes hstate
      rw [hquiet.einkMailbox] at hmem
      cases hmem
  | canceled =>
      have howed := h.owes (by rw [hquiet.einkMailbox, hstate]; rfl)
      rw [Owed, hcache, hquiet.worker, finished, hquiet.mailbox] at howed
      simp [Worker.held] at howed

end System

end

end MuditaOS.Gui

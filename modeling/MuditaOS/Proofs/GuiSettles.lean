import MuditaOS.Proofs.GuiFrames

/-!
# Every frame is done with

Each step of the thread, the worker and the display uses up some of the work that a draw
request brings with it: what stays behind of a message always weighs less than the message.
A party whose step changes nothing waits for another, and all wait only when nothing is left
to do. So the service gets through with its frames however its parties take turns, and it
answers when it is asked to close.

The signalling queue has one place, for the frames and for the colours alike. A frame whose
signal is overwritten there is not drawn, and nothing but another frame brings it about.
-/

namespace MuditaOS.Gui

open MuditaOS.Lib MuditaOS.Eink

section

variable {controller : Controller} {board : Board}

/-! ## Work -/

def Message.asksToClose : Message board → Bool
  | .closeReason => true
  | _ => false

def Message.work : Message board → Nat
  | .draw item => 15 + item.commands.length
  | .renderingFinished _ => 7
  | .imageDisplayed _ => 3
  | .changeColorScheme _ => 3
  | .closeReason => 1

def EinkMessage.work : EinkMessage → Nat
  | .image _ _ => 5
  | .refresh _ => 4
  | .cancelRefresh | .prepareEarly _ | .einkMode _ => 1

def QueueItem.work (item : QueueItem board) : Nat := 9 + item.commands.length

def Thread.work : Thread board → Nat
  | .ready => 0
  | .enqueueing item => 4 + item.work
  | .notifying => 3
  | .returned => 2
  | .sending => 1

def Worker.work : Worker board → Nat
  | .waiting => 0
  | .signalled _ => 1
  | .dequeued item => item.work
  | .rendering _ commands _ => 8 + commands.length

namespace System

def work (s : System controller board) : Nat :=
  (s.mailbox.map Message.work).sum + s.thread.work + (s.commandsQueue.map QueueItem.work).sum +
    (if s.signallingQueue.isSome then 2 else 0) + s.worker.work +
    (if s.cache.isSome then 5 else 0) + (s.einkMailbox.map EinkMessage.work).sum

variable {capacity : Nat} {s s' : System controller board}

theorem work_threaded (hstep : s.Threaded s') :
    (s.thread = .ready ∧ s.mailbox = []) ∧ s' = s ∨ s'.work < s.work := by
  cases hstep with
  | waits hthread hmailbox => exact .inl ⟨⟨hthread, hmailbox⟩, rfl⟩
  | ignored item rest hthread hmailbox hempty =>
      refine .inr ?_
      simp only [work, hmailbox, List.map_cons, List.sum_cons, Message.work]
      omega
  | drawn item rest early refreshMode hthread hmailbox hne hearly =>
      have hone : (early.map EinkMessage.work).sum ≤ 1 := by
        rcases hearly with rfl | ⟨mode, rfl⟩ <;> simp [EinkMessage.work]
      refine .inr ?_
      simp only [work, hmailbox, hthread, List.map_cons, List.sum_cons, Message.work,
        List.map_append, List.sum_append, List.map_nil, List.sum_nil, Thread.work, QueueItem.work]
      omega
  | displayed render rest refreshMode hthread hmailbox hdisplaying =>
      refine .inr ?_
      simp only [work, hmailbox, List.map_cons, List.sum_cons, Message.work, List.map_append,
        List.sum_append, List.map_nil, List.sum_nil, EinkMessage.work, Option.isSome_none]
      simp
      omega
  | cached render rest hthread hmailbox hdisplaying =>
      refine .inr ?_
      simp only [work, hmailbox, List.map_cons, List.sum_cons, Message.work, List.map_append,
        List.sum_append, List.map_nil, List.sum_nil, EinkMessage.work, Option.isSome_some]
      simp
      omega
  | returned contextId rest hthread hmailbox =>
      refine .inr ?_
      simp only [work, hmailbox, hthread, List.map_cons, List.sum_cons, Message.work, Thread.work]
      omega
  | coloured scheme rest hthread hmailbox =>
      refine .inr ?_
      simp only [work, hmailbox, List.map_cons, List.sum_cons, Message.work, Option.isSome_some]
      simp
      omega
  | closed rest hthread hmailbox =>
      refine .inr ?_
      simp only [work, hmailbox, List.map_cons, List.sum_cons, Message.work]
      omega
  | closing rest hthread hmailbox hbusy =>
      refine .inr ?_
      simp only [work, hmailbox, List.map_cons, List.sum_cons, Message.work]
      omega
  | enqueued item hthread =>
      refine .inr ?_
      simp only [work, hthread, Thread.work, List.map_append, List.sum_append, List.map_cons,
        List.map_nil, List.sum_cons, List.sum_nil]
      omega
  | notified hthread =>
      refine .inr ?_
      simp only [work, hthread, Thread.work, Option.isSome_some]
      simp
      omega
  | sends render hthread hcache =>
      refine .inr ?_
      simp only [work, hthread, Thread.work]
      omega
  | answers hthread hclosing hcache =>
      refine .inr ?_
      simp only [work, hthread, Thread.work]
      omega
  | resumes hthread hrunning hcache =>
      refine .inr ?_
      simp only [work, hthread, Thread.work]
      omega
  | sent render hthread hcache hfree =>
      refine .inr ?_
      simp only [work, hthread, hcache, Thread.work, List.map_append, List.sum_append,
        List.map_cons, List.map_nil, List.sum_cons, List.sum_nil, EinkMessage.work,
        Option.isSome_some, Option.isSome_none]
      simp
      omega
  | borrowed render hthread hcache hlocked =>
      refine .inr ?_
      simp only [work, hthread, hcache, Thread.work, Option.isSome_some, Option.isSome_none]
      simp
      omega
  | missing hthread hcache =>
      refine .inr ?_
      simp only [work, hthread, Thread.work]
      omega

theorem work_worked (hstep : s.Worked s') :
    (s.worker = .waiting ∧ s.signallingQueue = none ∨
        (∃ item, s.worker = .dequeued item) ∧ s.contextPool.freeContextIds = []) ∧ s' = s ∨
      s'.work < s.work := by
  cases hstep with
  | waits hworker hsignalling => exact .inl ⟨.inl ⟨hworker, hsignalling⟩, rfl⟩
  | starves item hworker hfree => exact .inl ⟨.inr ⟨⟨item, hworker⟩, hfree⟩, rfl⟩
  | told command hworker hsignalling =>
      refine .inr ?_
      simp only [work, hworker, hsignalling, Worker.work, Option.isSome_some, Option.isSome_none]
      simp
  | coloured hworker =>
      refine .inr ?_
      simp only [work, hworker, Worker.work]
      omega
  | missed hworker hqueue =>
      refine .inr ?_
      simp only [work, hworker, Worker.work]
      omega
  | took item queue hworker hqueue =>
      refine .inr ?_
      simp only [work, hworker, hqueue, Worker.work, List.map_cons, List.sum_cons]
      omega
  | borrowed item contextId hworker hfree =>
      refine .inr ?_
      simp only [work, hworker, Worker.work, QueueItem.work]
      omega
  | drew contextId cmd commands refreshMode hworker =>
      refine .inr ?_
      simp only [work, hworker, Worker.work, List.length_cons]
      omega
  | finished contextId refreshMode hworker =>
      refine .inr ?_
      simp only [work, hworker, Worker.work, List.length_nil, List.map_append, List.sum_append,
        List.map_cons, List.map_nil, List.sum_cons, List.sum_nil, Message.work]
      omega

theorem work_einkStep {status : EinkStatus controller} {prepared : Bool}
    (hrunning : s.eink.currentState = .running) :
    s.einkMailbox = [] ∧ s.einkStep status prepared = s ∨
      (s.einkStep status prepared).work < s.work := by
  obtain hwaits | ⟨message, rest, eink, hmailbox, -, hcases⟩ :=
    einkStep_cases status prepared hrunning
  · exact .inl hwaits
  · refine .inr ?_
    have hpos : 0 < message.work := by cases message <;> exact Nat.succ_pos _
    obtain ⟨hcontext, hstep⟩ | ⟨refreshMessage, hcontext, hsent, hstep⟩ |
      ⟨contextId, receiver, hcontext, hsent, hstep⟩ := hcases
    · rw [hstep]
      simp only [work, hmailbox, List.map_cons, List.sum_cons]
      omega
    · -- only an image asks for a refresh
      have himage : message.work = 5 := by
        cases message with
        | image contextId refreshMode => rfl
        | refresh message => cases hsent
        | _ => cases hcontext
      have hrefresh : (EinkMessage.refresh refreshMessage).work = 4 := rfl
      rw [hstep]
      simp only [work, hmailbox, List.map_cons, List.sum_cons, List.map_append, List.sum_append,
        List.map_nil, List.sum_nil, hrefresh, himage]
      omega
    · have hholds : 4 ≤ message.work := by
        cases message with
        | image contextId refreshMode => exact Nat.le_succ 4
        | refresh message => exact Nat.le_refl 4
        | _ => cases hcontext
      rw [hstep]
      simp only [work, hmailbox, List.map_cons, List.sum_cons, List.map_append, List.sum_append,
        List.map_nil, List.sum_nil, Message.work]
      omega

/-! ## Turns -/

end System

/-! ## Turns -/

/-- A step of one of the parties, whatever the transfers come to. -/
def Action.Own : Action controller board → Prop
  | .thread | .worker | .eink _ _ => True
  | _ => False

/-- Each of the parties takes a step, or several. -/
structure Turn (actions : List (Action controller board)) : Prop where
  thread : Action.thread ∈ actions
  worker : Action.worker ∈ actions
  eink : ∃ status prepared, Action.eink status prepared ∈ actions

namespace System

variable {capacity : Nat} {s s' : System controller board}

/-- The party of the step waits for another. -/
def Idles (s : System controller board) : Action controller board → Prop
  | .thread => s.thread = .ready ∧ s.mailbox = []
  | .worker => s.worker = .waiting ∧ s.signallingQueue = none ∨
      (∃ item, s.worker = .dequeued item) ∧ s.contextPool.freeContextIds = []
  | .eink _ _ => s.einkMailbox = []
  | _ => False

theorem idles_or_works {action : Action controller board} (h : s.Owned capacity)
    (hown : action.Own) : s.Idles action ∧ s.step action = s ∨ (s.step action).work < s.work := by
  cases action with
  | thread => exact work_threaded threaded_threadStep
  | worker => exact work_worked worked_workerStep
  | eink status prepared => exact work_einkStep h.running
  | _ => exact hown.elim

/-- A pool that has contexts lends the worker one as long as nobody else is at work. -/
theorem Owned.quiet (h : s.Owned capacity) (hcapacity : 0 < capacity)
    {turn : List (Action controller board)} (hturn : Turn turn)
    (hidles : ∀ action ∈ turn, s.Idles action) : s.Quiet := by
  obtain ⟨hthread, hmailbox⟩ := hidles _ hturn.thread
  obtain ⟨status, prepared, hmem⟩ := hturn.eink
  have heink : s.einkMailbox = [] := hidles _ hmem
  rcases hidles _ hturn.worker with ⟨hworker, hsignalling⟩ | ⟨⟨item, hworker⟩, hfree⟩
  · exact ⟨hmailbox, hthread, hsignalling, hworker, heink⟩
  · have hnone : s.holders = [] := by
      rw [holders, System.displays, finished, hworker, hmailbox, heink]
      rfl
    have hall := h.partition 0
    rw [hfree, ← h.held, hnone] at hall
    refine absurd (List.count_eq_zero.1 hall.symm) (not_not_intro ?_)
    exact List.mem_map.2 ⟨0, List.mem_range.2 hcapacity, rfl⟩

theorem Quiet.step (h : s.Quiet) {action : Action controller board} (hown : action.Own) :
    s.step action = s := by
  cases action with
  | thread =>
      show s.threadStep = s
      rw [threadStep, h.thread, h.mailbox]
  | worker =>
      show s.workerStep = s
      rw [workerStep, h.worker, h.signallingQueue]
  | eink status prepared =>
      show s.einkStep status prepared = s
      rw [einkStep, h.einkMailbox]
  | _ => exact hown.elim

/-- From every state that is reached while the display service answers, nothing is left to do
after more turns of the three parties than there is work, in whatever order each turn lets
them step and whatever the transfers come to. -/
theorem settles (capacity : Nat) (scheme : ColorScheme) (eink : ServiceEink controller board)
    (actions : List (Action controller board)) (turns : List (List (Action controller board)))
    (hcapacity : 0 < capacity) (hrunning : eink.currentState = .running)
    (hanswered : ∀ action ∈ actions, action.Answered)
    (hturns : ∀ turn ∈ turns, Turn turn ∧ ∀ action ∈ turn, action.Own)
    (hlong : (actions.foldl step (init capacity scheme eink)).work < turns.length) :
    (turns.flatten.foldl step (actions.foldl step (init capacity scheme eink))).Quiet := by
  have hanswers : ∀ action : Action controller board, action.Own → action.Answered := by
    intro action hown
    cases action with
    | thread | worker | eink => trivial
    | _ => exact hown.elim
  have hstep : ∀ (s : System controller board) (action : Action controller board),
      s.Owned capacity → action.Own →
        s.Idles action ∧ s.step action = s ∨ (s.step action).work < s.work :=
    fun _ _ h hown => idles_or_works h hown
  exact quiet_of_turns hstep
    (fun _ action h hown => owned_step h (hanswers action hown))
    (fun _ _ h hturn hidles => h.quiet hcapacity hturn hidles)
    (fun _ _ h hown => h.step hown)
    (owned_run (owned_init hrunning) hanswered) hturns hlong

/-! ## A signal that is overwritten -/

/-- Nothing that replaces the queue is requested, and the worker is told of nothing in it. -/
structure Unheard (queue : List (QueueItem board)) (s : System controller board) : Prop where
  queue : s.commandsQueue = queue
  settled : s.Settled
  silent : ¬ s.Signalled

theorem Unheard.frame {queue : List (QueueItem board)} (h : s.Unheard queue)
    (hqueue : s'.commandsQueue = s.commandsQueue) (hrequests : s'.requests = s.requests)
    (hthread : ∀ item, s'.thread = .enqueueing item → s.thread = .enqueueing item)
    (hsignalled : s'.Signalled → s.Signalled) : s'.Unheard queue :=
  ⟨hqueue.trans h.queue, h.settled.frame hrequests hthread, mt hsignalled h.silent⟩

theorem Settled.tail (h : s.Settled) {message : Message board} {rest : List (Message board)}
    (hmailbox : s.mailbox = message :: rest) :
    message.requested = none ∧ rest.filterMap Message.requested = s.requests := by
  have hnone := h.requests
  rw [System.requests, hmailbox] at hnone ⊢
  cases hrequest : message.requested with
  | none => exact ⟨rfl, (List.filterMap_cons_none hrequest).symm⟩
  | some item =>
      rw [List.filterMap_cons_some hrequest] at hnone
      cases hnone

theorem unheard_threaded {queue : List (QueueItem board)} (h : s.Unheard queue)
    (hstep : s.Threaded s') : s'.Unheard queue := by
  cases hstep with
  | waits hthread hmailbox => exact h
  | ignored item rest hthread hmailbox hempty => cases (h.settled.tail hmailbox).1
  | drawn item rest early refreshMode hthread hmailbox hne hearly =>
      cases (h.settled.tail hmailbox).1
  | enqueued item hthread => exact absurd hthread (h.settled.thread item)
  | notified hthread => exact absurd (.inl hthread) h.silent
  | displayed render rest refreshMode hthread hmailbox hdisplaying =>
      exact h.frame rfl (h.settled.tail hmailbox).2 (fun _ => id) id
  | cached render rest hthread hmailbox hdisplaying =>
      exact h.frame rfl (h.settled.tail hmailbox).2 (fun _ => id) id
  | returned contextId rest hthread hmailbox =>
      exact h.frame rfl (h.settled.tail hmailbox).2 (by simp) (by simp [Signalled, hthread])
  | coloured scheme rest hthread hmailbox =>
      exact h.frame rfl (h.settled.tail hmailbox).2 (fun _ => id)
        (Or.imp_right (Or.imp_left (by simp)))
  | closed rest hthread hmailbox =>
      exact h.frame rfl (h.settled.tail hmailbox).2 (fun _ => id) id
  | closing rest hthread hmailbox hbusy =>
      exact h.frame rfl (h.settled.tail hmailbox).2 (fun _ => id) id
  | sends render hthread hcache => exact h.frame rfl rfl (by simp) (by simp [Signalled, hthread])
  | answers hthread hclosing hcache =>
      exact h.frame rfl rfl (by simp) (by simp [Signalled, hthread])
  | resumes hthread hrunning hcache =>
      exact h.frame rfl rfl (by simp) (by simp [Signalled, hthread])
  | sent render hthread hcache hfree =>
      exact h.frame rfl rfl (by simp) (by simp [Signalled, hthread])
  | borrowed render hthread hcache hlocked =>
      exact h.frame rfl rfl (by simp) (by simp [Signalled, hthread])
  | missing hthread hcache => exact h.frame rfl rfl (by simp) (by simp [Signalled, hthread])

theorem unheard_worked {queue : List (QueueItem board)} (h : s.Unheard queue)
    (hstep : s.Worked s') : s'.Unheard queue := by
  have huntold : s.worker ≠ .signalled .render := fun hworker => h.silent (.inr (.inr hworker))
  cases hstep with
  | waits hworker hsignalling => exact h
  | told command hworker hsignalling =>
      -- the worker hears of the colours only
      refine h.frame rfl rfl (fun _ => id) ?_
      rintro (hnotifying | hrender | hrender)
      · exact .inl hnotifying
      · cases hrender
      · cases hrender
        exact .inr (.inl hsignalling)
  | missed hworker hqueue => exact absurd hworker huntold
  | took item queue hworker hqueue => exact absurd hworker huntold
  | starves item hworker hfree => exact h
  | coloured hworker => exact h.frame rfl rfl (fun _ => id) (by simp [Signalled, hworker])
  | borrowed item contextId hworker hfree =>
      exact h.frame rfl rfl (fun _ => id) (by simp [Signalled, hworker])
  | drew contextId cmd commands refreshMode hworker =>
      exact h.frame rfl rfl (fun _ => id) (by simp [Signalled, hworker])
  | finished contextId refreshMode hworker =>
      exact h.frame rfl (filterMap_append_none rfl) (fun _ => id) (by simp [Signalled, hworker])

/-- What the display service sends is no request. -/
theorem unheard_send {queue : List (QueueItem board)} {sent : List Sent} :
    ∀ {s : System controller board}, s.Unheard queue → (sent.foldl send s).Unheard queue := by
  induction sent with
  | nil => exact id
  | cons message sent ih =>
      intro s h
      refine ih ?_
      cases message with
      | refreshMessage message => exact h.frame rfl rfl (fun _ => id) id
      | imageDisplayedNotification contextId receiver =>
          exact h.frame rfl (filterMap_append_none rfl) (fun _ => id) id

theorem unheard_step {queue : List (QueueItem board)} {action : Action controller board}
    (h : s.Unheard queue) (hdraw : ∀ item, action ≠ .draw item) :
    (s.step action).Unheard queue := by
  cases action with
  | draw item => exact absurd rfl (hdraw item)
  | changeColorScheme scheme =>
      exact h.frame rfl (filterMap_append_none rfl) (fun _ => id) id
  | closeReason =>
      exact h.frame rfl (filterMap_append_none rfl) (fun _ => id) id
  | einkMode mode => exact h.frame rfl rfl (fun _ => id) id
  | switchPowerMode mode => exact h.frame rfl rfl (fun _ => id) id
  | releaseTimeout =>
      show s.releaseTimeout.Unheard queue
      unfold releaseTimeout
      split
      · next contextId hthread htimer =>
          exact h.frame rfl rfl (by simp [handleImageDisplayedNotification])
            (by simp [Signalled, handleImageDisplayedNotification, hthread])
      · exact h
  | thread => exact unheard_threaded h threaded_threadStep
  | worker => exact unheard_worked h worked_workerStep
  | eink status prepared =>
      show (s.einkStep status prepared).Unheard queue
      unfold einkStep
      split
      · exact h
      · exact unheard_send (h.frame rfl rfl (fun _ => id) id)

theorem unheard_run {queue : List (QueueItem board)} {actions : List (Action controller board)}
    {s : System controller board} (h : s.Unheard queue)
    (hdraws : ∀ item, Action.draw item ∉ actions) : (actions.foldl step s).Unheard queue := by
  induction actions generalizing s with
  | nil => exact h
  | cons action actions ih =>
      refine ih (unheard_step h fun item hitem => ?_) fun item hmem =>
        hdraws item (List.mem_cons_of_mem action hmem)
      exact hdraws item (hitem ▸ List.mem_cons_self)

/-- A change of the colours that is taken while the worker has yet to hear of a frame takes the
place of the signal: whatever is done from then on, the frame stays in the queue for as long as
no other is requested. -/
theorem overwritten_stays (s : System controller board) (scheme : ColorScheme)
    (rest : List (Message board)) (actions : List (Action controller board))
    (hthread : s.thread = .ready) (hmailbox : s.mailbox = .changeColorScheme scheme :: rest)
    (hrest : ∀ item, Message.draw item ∉ rest) (hworker : s.worker ≠ .signalled .render)
    (hdraws : ∀ item, Action.draw item ∉ actions) :
    (actions.foldl step (s.step .thread)).commandsQueue = s.commandsQueue := by
  have hstep : s.step .thread =
      { s with
        mailbox := rest
        colorSchemeUpdate := scheme
        signallingQueue := some .changeColorScheme } := by
    show s.threadStep = _
    rw [threadStep, hthread]
    dsimp only
    rw [hmailbox]
    rfl
  have hnone : rest.filterMap Message.requested = [] := by
    refine List.filterMap_eq_nil_iff.2 fun message hmem => ?_
    cases message with
    | draw item => exact absurd hmem (hrest item)
    | _ => rfl
  have hunheard : (s.step .thread).Unheard s.commandsQueue := by
    rw [hstep]
    exact ⟨rfl, ⟨hnone, by simp [hthread]⟩, by simp [Signalled, hthread, hworker]⟩
  exact (unheard_run hunheard hdraws).queue

/-! ## Closing -/

/-- The requests to close that are still in the mailbox. -/
def asked (s : System controller board) : Nat := s.mailbox.countP Message.asksToClose

/-- A frame is still to be rendered, or its end to be heard of. -/
inductive Pending (s : System controller board) : Prop
  | enqueueing (item : QueueItem board) (hthread : s.thread = .enqueueing item)
  | queued (hqueue : s.commandsQueue ≠ []) (hsignalled : s.Signalled)
  | dequeued (item : QueueItem board) (hworker : s.worker = .dequeued item)
  | held (hheld : s.worker.held ≠ [])
  | finished (hfinished : s.finished ≠ [])

/-- The service that is to be closed has a frame to wait for. -/
def Busy (s : System controller board) : Prop := s.Pending ∨ s.Waits

structure Closes (capacity requests : Nat) (s : System controller board) : Prop where
  owned : s.Owned capacity
  rendering : s.renderingState = .rendering → s.Pending
  closing : s.serviceState = .closing → s.Busy
  sends : s.thread = .sending → s.cache ≠ none
  counted : s.closeReady + (if s.serviceState = .closing then 1 else 0) + s.asked ≤ requests
  closed : s.serviceState = .closed → 1 ≤ s.closeReady
  answered : s.asked < requests → s.serviceState = .closing ∨ 1 ≤ s.closeReady

variable {requests : Nat}

theorem Pending.frame (h : s.Pending)
    (hthread : ∀ item, s.thread = .enqueueing item → s'.thread = .enqueueing item)
    (hqueue : s'.commandsQueue = s.commandsQueue) (hworker : s'.worker = s.worker)
    (hfinished : s'.finished = s.finished) (hsignalled : s.Signalled → s'.Signalled) :
    s'.Pending := by
  cases h with
  | enqueueing item henqueueing => exact .enqueueing item (hthread item henqueueing)
  | queued hne hsignal => exact .queued (hqueue ▸ hne) (hsignalled hsignal)
  | dequeued item hdequeued => exact .dequeued item (hworker.trans hdequeued)
  | held hheld => exact .held (hworker ▸ hheld)
  | finished hne => exact .finished (hfinished ▸ hne)

/-- A step of the worker brings the frame on its way. -/
theorem Pending.worked (h : s.Pending) (hstep : s.Worked s') : s'.Pending := by
  have hkeep : s'.thread = s.thread → s'.commandsQueue = s.commandsQueue →
      s'.finished = s.finished → (∀ item, s.worker ≠ .dequeued item) → s.worker.held = [] →
        (s.commandsQueue ≠ [] → s.Signalled → s'.Signalled) → s'.Pending := by
    intro hthread hqueue hfinished hdequeued hheld hsignalled
    cases h with
    | enqueueing item henqueueing => exact .enqueueing item (hthread.trans henqueueing)
    | queued hne hsignal => exact .queued (hqueue ▸ hne) (hsignalled hne hsignal)
    | dequeued item hworker => exact absurd hworker (hdequeued item)
    | held hne => exact absurd hheld hne
    | finished hne => exact .finished (hfinished ▸ hne)
  cases hstep with
  | waits hworker hsignalling => exact h
  | starves item hworker hfree => exact h
  | told command hworker hsignalling =>
      refine hkeep rfl rfl rfl (by simp [hworker]) (by rw [hworker]; rfl) fun _ hsignal => ?_
      rcases hsignal with hnotifying | hrender | hrender
      · exact .inl hnotifying
      · rw [hsignalling] at hrender
        cases hrender
        exact .inr (.inr rfl)
      · rw [hworker] at hrender
        cases hrender
  | coloured hworker =>
      exact hkeep rfl rfl rfl (by simp [hworker]) (by rw [hworker]; rfl)
        fun _ hsignal => hsignal.keep (by simp [hworker]) rfl rfl
  | missed hworker hqueue =>
      exact hkeep rfl rfl rfl (by simp [hworker]) (by rw [hworker]; rfl)
        fun hne => absurd hqueue hne
  | took item queue hworker hqueue => exact .dequeued item rfl
  | borrowed item contextId hworker hfree => exact .held (by simp [Worker.held])
  | drew contextId cmd commands refreshMode hworker => exact .held (by simp [Worker.held])
  | finished contextId refreshMode hworker =>
      exact .finished (by simp [System.finished, Message.finished])

theorem closes_worked (h : s.Closes capacity requests) (hstep : s.Worked s') :
    s'.Closes capacity requests := by
  have howned := owned_worked h.owned hstep
  have hpending : s.Pending → s'.Pending := fun hpending => hpending.worked hstep
  have hbusy : s.Waits → s'.Waits := by cases hstep <;> exact id
  have hasked : s'.asked = s.asked := by
    cases hstep with
    | finished contextId refreshMode hworker =>
        simp only [asked, List.countP_append, List.countP_cons, List.countP_nil]
        rfl
    | _ => rfl
  refine ⟨howned, ?_, ?_, ?_, ?_, ?_, ?_⟩
  · exact fun hrendering => hpending (h.rendering (by cases hstep <;> exact hrendering))
  · exact fun hclosing =>
      (h.closing (by cases hstep <;> exact hclosing)).imp hpending hbusy
  · have hsends := h.sends
    cases hstep <;> exact hsends
  · rw [hasked]
    have hcounted := h.counted
    cases hstep <;> exact hcounted
  · have hclosed := h.closed
    cases hstep <;> exact hclosed
  · rw [hasked]
    have hanswered := h.answered
    cases hstep <;> exact hanswered

theorem asked_tail {message : Message board} {rest : List (Message board)}
    (hmailbox : s.mailbox = message :: rest) :
    s.asked = rest.countP Message.asksToClose + if message.asksToClose then 1 else 0 := by
  rw [asked, hmailbox, List.countP_cons]

/-- A message that is not about closing, and brings nothing to wait for. -/
theorem Closes.other (h : s.Closes capacity requests) (howned : s'.Owned capacity)
    (hrendering : s'.renderingState = .rendering → s'.Pending)
    (hbusy : s.Busy → s'.Busy) (hsends : s'.thread = .sending → s'.cache ≠ none)
    (hstate : s'.serviceState = s.serviceState) (hready : s'.closeReady = s.closeReady)
    (hasked : s'.asked = s.asked) : s'.Closes capacity requests where
  owned := howned
  rendering := hrendering
  closing hclosing := hbusy (h.closing (hstate ▸ hclosing))
  sends := hsends
  counted := by rw [hready, hstate, hasked]; exact h.counted
  closed := by rw [hready, hstate]; exact h.closed
  answered := by rw [hready, hstate, hasked]; exact h.answered

theorem closes_threaded (h : s.Closes capacity requests) (hstep : s.Threaded s')
    (horderly : s.signallingQueue = some .render →
      ∀ scheme rest, s.mailbox ≠ .changeColorScheme scheme :: rest) :
    s'.Closes capacity requests := by
  have howned := owned_threaded h.owned hstep
  cases hstep with
  | waits => exact h
  | ignored item rest hthread hmailbox hempty =>
      have hpending : s.Pending → Pending { s with mailbox := rest } := fun hpending =>
        hpending.frame (fun _ => id) rfl rfl (finished_tail hmailbox rfl) id
      exact h.other howned (fun hrendering => hpending (h.rendering hrendering))
        (Or.imp hpending id) (by simp [hthread]) rfl rfl (asked_tail hmailbox).symm
  | drawn item rest early refreshMode hthread hmailbox hne hearly =>
      exact h.other howned (fun _ => .enqueueing _ rfl) (fun _ => .inl (.enqueueing _ rfl))
        (by simp) rfl rfl (asked_tail hmailbox).symm
  | displayed render rest refreshMode hthread hmailbox hdisplaying =>
      exact h.other howned (by simp) (fun _ => .inr (.inl rfl)) (by simp [hthread]) rfl rfl
        (asked_tail hmailbox).symm
  | cached render rest hthread hmailbox hdisplaying =>
      exact h.other howned (by simp) (fun _ => .inr (.inl hdisplaying)) (by simp) rfl rfl
        (asked_tail hmailbox).symm
  | returned contextId rest hthread hmailbox =>
      refine h.other howned (fun hrendering => (h.rendering hrendering).frame (by simp [hthread])
        rfl rfl (finished_tail hmailbox rfl) fun hsignal => ?_)
        (fun _ => .inr (.inr (.inl rfl))) (by simp) rfl rfl (asked_tail hmailbox).symm
      exact .inr (hsignal.resolve_left (by simp [hthread]))
  | coloured scheme rest hthread hmailbox =>
      have hpending : s.Pending → Pending { s with
          mailbox := rest
          colorSchemeUpdate := scheme
          signallingQueue := some .changeColorScheme } := fun hpending =>
        hpending.frame (fun _ => id) rfl rfl (finished_tail hmailbox rfl) fun hsignal => by
          rcases hsignal with hnotifying | hrender | hworker
          · exact .inl hnotifying
          · exact absurd hmailbox (horderly hrender scheme rest)
          · exact .inr (.inr hworker)
      exact h.other howned (fun hrendering => hpending (h.rendering hrendering))
        (Or.imp hpending id) (by simp [hthread]) rfl rfl (asked_tail hmailbox).symm
  | closed rest hthread hmailbox =>
      have hasked := asked_tail hmailbox
      have hcounted := h.counted
      simp only [Message.asksToClose, if_true] at hasked
      rw [hasked] at hcounted
      refine ⟨howned, fun hrendering => (h.rendering hrendering).frame (fun _ => id) rfl rfl
        (finished_tail hmailbox rfl) id, by simp, by simp [hthread], ?_,
        fun _ => Nat.succ_pos _, fun _ => .inr (Nat.succ_pos _)⟩
      simp only [asked]
      simp
      omega
  | closing rest hthread hmailbox hbusy =>
      have hpending : s.Pending → Pending { s with
          mailbox := rest
          serviceState := if s.serviceState = .closed then .closed else .closing } :=
        fun hpending => hpending.frame (fun _ => id) rfl rfl (finished_tail hmailbox rfl) id
      have hasked := asked_tail hmailbox
      have hcounted := h.counted
      simp only [Message.asksToClose, if_true] at hasked
      rw [hasked] at hcounted
      refine ⟨howned, fun hrendering => hpending (h.rendering hrendering), fun _ => ?_,
        by simp [hthread], ?_, fun hclosed => ?_, fun _ => ?_⟩
      · exact hbusy.imp (fun hrendering => hpending (h.rendering hrendering)) .inl
      · have hone : ∀ (p : Prop) [Decidable p], (if p then 1 else 0) ≤ 1 := by
          intro p _
          split <;> omega
        refine (Nat.add_le_add_right (Nat.add_le_add_left (hone _) _) _).trans ?_
        show s.closeReady + 1 + rest.countP Message.asksToClose ≤ requests
        omega
      · refine h.closed ?_
        by_contra hnot
        rw [if_neg hnot] at hclosed
        cases hclosed
      · by_cases hclosed : s.serviceState = .closed
        · exact .inr (h.closed hclosed)
        · exact .inl (if_neg hclosed)
  | enqueued item hthread =>
      exact h.other howned (fun _ => .queued (by simp) (.inl rfl))
        (fun _ => .inl (.queued (by simp) (.inl rfl))) (by simp) rfl rfl rfl
  | notified hthread =>
      have hpending : s.Pending → Pending { s with
          signallingQueue := some .render, thread := .ready } := fun hpending =>
        hpending.frame (by simp [hthread]) rfl rfl rfl fun _ => .inr (.inl rfl)
      refine h.other howned (fun hrendering => hpending (h.rendering hrendering))
        (Or.imp hpending fun hwaits => .inl ?_) (by simp) rfl rfl rfl
      exact hwaits.resolve_right (by simp [hthread])
  | sends render hthread hcache =>
      have hpending : s.Pending → Pending { s with thread := .sending } := fun hpending =>
        hpending.frame (by simp [hthread]) rfl rfl rfl fun hsignal =>
          .inr (hsignal.resolve_left (by simp [hthread]))
      exact h.other howned (fun hrendering => hpending (h.rendering hrendering))
        (fun _ => .inr (.inr (.inr rfl))) (by simp [hcache]) rfl rfl rfl
  | answers hthread hclosing hcache =>
      have hcounted := h.counted
      rw [if_pos hclosing] at hcounted
      refine ⟨howned, fun hrendering => (h.rendering hrendering).frame (by simp [hthread]) rfl rfl
        rfl fun hsignal => .inr (hsignal.resolve_left (by simp [hthread])), by simp, by simp, ?_,
        fun _ => Nat.succ_pos _, fun _ => .inr (Nat.succ_pos _)⟩
      show s.closeReady + 1 + 0 + s.asked ≤ requests
      omega
  | resumes hthread hrunning hcache =>
      have hpending : s.Pending → Pending { s with thread := .ready } := fun hpending =>
        hpending.frame (by simp [hthread]) rfl rfl rfl fun hsignal =>
          .inr (hsignal.resolve_left (by simp [hthread]))
      exact ⟨howned, fun hrendering => hpending (h.rendering hrendering),
        fun hclosing => absurd hclosing hrunning, by simp, h.counted, h.closed, h.answered⟩
  | sent render hthread hcache hfree =>
      refine h.other howned (fun hrendering => (h.rendering hrendering).frame (by simp [hthread])
        rfl rfl rfl fun hsignal => .inr (hsignal.resolve_left (by simp [hthread])))
        (fun _ => .inr (.inl rfl)) (by simp) rfl rfl rfl
  | borrowed render hthread hcache hlocked =>
      -- the context was borrowed by the worker
      have hpending : Pending { s with cache := none, thread := .ready } := by
        rcases h.owned.working (h.owned.waits (.inr hthread)) (mt (fun hnone =>
          h.owned.free hnone (h.owned.cached render hcache)) hlocked) with hheld | hfinished
        · exact .held hheld
        · exact .finished hfinished
      exact h.other howned (fun _ => hpending) (fun _ => .inl hpending) (by simp) rfl rfl rfl
  | missing hthread hcache => exact absurd hcache (h.sends hthread)

theorem closes_einkStep {status : EinkStatus controller} {prepared : Bool}
    (h : s.Closes capacity requests) :
    (s.einkStep status prepared).Closes capacity requests := by
  have howned := owned_einkStep status prepared h.owned
  obtain ⟨-, hstep⟩ | ⟨message, rest, eink, hmailbox, -, hcases⟩ :=
    einkStep_cases status prepared h.owned.running
  · rwa [hstep]
  · obtain ⟨-, hstep⟩ | ⟨refreshMessage, -, -, hstep⟩ | ⟨contextId, receiver, -, -, hstep⟩ :=
      hcases
    · rw [hstep] at howned ⊢
      exact h.other howned (fun hrendering => (h.rendering hrendering).frame (fun _ => id) rfl rfl
        rfl id) (Or.imp (fun hpending => hpending.frame (fun _ => id) rfl rfl rfl id) id) h.sends
        rfl rfl rfl
    · rw [hstep] at howned ⊢
      exact h.other howned (fun hrendering => (h.rendering hrendering).frame (fun _ => id) rfl rfl
        rfl id) (Or.imp (fun hpending => hpending.frame (fun _ => id) rfl rfl rfl id) id) h.sends
        rfl rfl rfl
    · rw [hstep] at howned ⊢
      have hfinished : (s.mailbox ++ [Message.imageDisplayed contextId]).filterMap
          Message.finished = s.finished := filterMap_append_none rfl
      refine h.other howned (fun hrendering => (h.rendering hrendering).frame (fun _ => id) rfl rfl
        hfinished id) (Or.imp (fun hpending => hpending.frame (fun _ => id) rfl rfl hfinished id)
        id) h.sends rfl rfl ?_
      rw [asked, List.countP_append]
      rfl

end System

def Action.asksToClose : Action controller board → Bool
  | .closeReason => true
  | _ => false

namespace System

variable {capacity requests : Nat} {s : System controller board}

theorem closes_step {action : Action controller board} (h : s.Closes capacity requests)
    (horderly : s.Orderly action) :
    (s.step action).Closes capacity (requests + if action.asksToClose then 1 else 0) := by
  have howned := owned_step h.owned horderly.answered
  have happend : ∀ message : Message board, message.finished = none →
      ∀ {s' : System controller board}, s' = { s with mailbox := s.mailbox ++ [message] } →
        s.Pending → s'.Pending := by
    rintro message hmessage s' rfl hpending
    refine hpending.frame (fun _ => id) rfl rfl ?_ id
    rw [finished, List.filterMap_append, List.filterMap_cons_none hmessage]
    exact List.append_nil _
  cases action with
  | draw item =>
      refine h.other howned (fun hrendering => happend _ rfl rfl (h.rendering hrendering))
        (Or.imp (happend _ rfl rfl) id) h.sends rfl rfl ?_
      simp [asked, step, Message.asksToClose]
  | changeColorScheme scheme =>
      refine h.other howned (fun hrendering => happend _ rfl rfl (h.rendering hrendering))
        (Or.imp (happend _ rfl rfl) id) h.sends rfl rfl ?_
      simp [asked, step, Message.asksToClose]
  | closeReason =>
      have hasked : (s.step .closeReason).asked = s.asked + 1 := by
        simp [asked, step, Message.asksToClose]
      refine ⟨howned, fun hrendering => happend _ rfl rfl (h.rendering hrendering),
        fun hclosing => (h.closing hclosing).imp (happend _ rfl rfl) id, h.sends, ?_, h.closed,
        fun hless => h.answered ?_⟩
      · have hcounted := h.counted
        rw [hasked]
        show s.closeReady + (if s.serviceState = .closing then 1 else 0) + (s.asked + 1) ≤
          requests + 1
        omega
      · rw [hasked] at hless
        exact Nat.lt_of_succ_lt_succ hless
  | einkMode mode =>
      exact h.other howned (fun hrendering => (h.rendering hrendering).frame (fun _ => id) rfl rfl
        rfl id) (Or.imp (fun hpending => hpending.frame (fun _ => id) rfl rfl rfl id) id) h.sends
        rfl rfl rfl
  | switchPowerMode mode =>
      exact h.other howned (fun hrendering => (h.rendering hrendering).frame (fun _ => id) rfl rfl
        rfl id) (Or.imp (fun hpending => hpending.frame (fun _ => id) rfl rfl rfl id) id) h.sends
        rfl rfl rfl
  | releaseTimeout => exact horderly.elim
  | thread => exact closes_threaded h threaded_threadStep horderly
  | worker => exact closes_worked h worked_workerStep
  | eink status prepared => exact closes_einkStep h

theorem closes_run {actions : List (Action controller board)} {s : System controller board}
    (h : s.Closes capacity requests) (horderly : EveryStep Orderly step s actions) :
    (actions.foldl step s).Closes capacity (requests + actions.countP Action.asksToClose) := by
  induction actions generalizing s requests with
  | nil => exact h
  | cons action actions ih =>
      rw [List.countP_cons, Nat.add_comm (actions.countP _), ← Nat.add_assoc]
      exact ih (closes_step h horderly.1) horderly.2

theorem closes_init {scheme : ColorScheme} {eink : ServiceEink controller board}
    (hrunning : eink.currentState = .running) : (init capacity scheme eink).Closes capacity 0 where
  owned := owned_init hrunning
  rendering := by simp [init]
  closing := by simp [init]
  sends := by simp [init]
  counted := by simp [init, asked]
  closed := by simp [init]
  answered := by simp

/-- The service says that it is ready at most once a request, and as soon as nothing is left
to do it has said so if it was asked at all. -/
theorem close_answered (capacity : Nat) (scheme : ColorScheme)
    (eink : ServiceEink controller board) (actions : List (Action controller board))
    (hrunning : eink.currentState = .running)
    (horderly : EveryStep Orderly step (init capacity scheme eink) actions) :
    let s := actions.foldl step (init capacity scheme eink)
    s.closeReady ≤ actions.countP Action.asksToClose ∧
      (s.Quiet → 0 < actions.countP Action.asksToClose → 1 ≤ s.closeReady) := by
  intro s
  have h : s.Closes capacity (0 + actions.countP Action.asksToClose) :=
    closes_run (closes_init hrunning) horderly
  rw [Nat.zero_add] at h
  have hcounted := h.counted
  refine ⟨by omega, fun hquiet hasked => (h.answered ?_).resolve_left fun hclosing => ?_⟩
  · rw [asked, hquiet.mailbox]
    exact hasked
  · have hfinished : s.finished = [] := by rw [finished, hquiet.mailbox]; rfl
    rcases h.closing hclosing with hpending | hdisplaying | hthread | hthread
    · cases hpending with
      | enqueueing item henqueueing => rw [hquiet.thread] at henqueueing; cases henqueueing
      | queued hne hsignal =>
          simp [Signalled, hquiet.thread, hquiet.signallingQueue, hquiet.worker] at hsignal
      | dequeued item hworker => rw [hquiet.worker] at hworker; cases hworker
      | held hheld => rw [hquiet.worker] at hheld; exact hheld rfl
      | finished hne => exact hne hfinished
    · have hone := h.owned.displays
      rw [System.displays, hquiet.mailbox, hquiet.einkMailbox, hdisplaying] at hone
      cases hone
    · rw [hquiet.thread] at hthread
      cases hthread
    · rw [hquiet.thread] at hthread
      cases hthread

end System

end

def takeTurns : List (List (Action pictures smallBoard)) :=
  List.replicate 17 [.thread, .worker, .eink .einkOK true]

theorem settles_cleared :
    (takeTurns.flatten.foldl System.step ([Action.draw clearedFrame].foldl System.step
      (System.init 2 defaultColorScheme (ServiceEink.init blankPanel .standard)))).Quiet :=
  System.settles 2 defaultColorScheme (ServiceEink.init blankPanel .standard)
    [.draw clearedFrame] takeTurns (by decide) rfl (by simp [Action.Answered])
    (fun turn hturn => by
      rw [List.eq_of_mem_replicate hturn]
      exact ⟨⟨by simp, by simp, .einkOK, true, by simp⟩, by simp [Action.Own]⟩)
    (by decide)

/-- The colours change before the worker hears of the frame. -/
def recolouredFrame : List (Action pictures smallBoard) :=
  [.draw clearedFrame, .changeColorScheme defaultColorScheme, .thread, .thread, .thread]

theorem overwritten_stays_cleared :
    let s := recolouredFrame.foldl System.step
      (System.init 2 defaultColorScheme (ServiceEink.init blankPanel .standard))
    (takeTurns.flatten.foldl System.step (s.step .thread)).commandsQueue = s.commandsQueue :=
  System.overwritten_stays _ defaultColorScheme [] takeTurns.flatten rfl rfl nofun nofun
    (by simp [takeTurns])

/-- The service is asked to close while a frame is on its way. -/
def closedFrame : List (Action pictures smallBoard) :=
  [.draw clearedFrame, .closeReason, .thread, .thread, .thread, .thread]

theorem close_answered_drawing :
    let s := closedFrame.foldl System.step
      (System.init 2 defaultColorScheme (ServiceEink.init blankPanel .standard))
    s.closeReady ≤ closedFrame.countP Action.asksToClose ∧
      (s.Quiet → 0 < closedFrame.countP Action.asksToClose → 1 ≤ s.closeReady) :=
  System.close_answered 2 defaultColorScheme (ServiceEink.init blankPanel .standard) closedFrame
    rfl
    ⟨trivial, trivial, fun _ _ _ => nofun, fun _ _ _ => nofun, fun _ _ _ => nofun,
      fun _ _ _ => nofun, trivial⟩

end MuditaOS.Gui

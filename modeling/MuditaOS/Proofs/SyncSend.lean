import Mathlib.Data.Nat.Basic
import MuditaOS.Lib.InOrder
import MuditaOS.Lib.Run
import MuditaOS.Sys.Bus

/-!
# What a synchronous send does to the mailbox

A wait puts what is not its response aside, and at its end pushes this back, behind
whatever is in the mailbox then. So nothing is lost, and a call that succeeds has its
response. But the messages keep their order only if nothing is behind those put aside:
each of them has been handled, has been put aside, or is in the mailbox, and read one
after the other these three are the order in which the service is going to see them. As
the messages are numbered when they arrive, this line is in order exactly when no message
has been pushed back behind a later one, and what has once gone wrong within a call is
still wrong when it returns.
-/

namespace MuditaOS.Sys.Service

open MuditaOS.Lib

variable {name : Name} {s s' : Service} {e : Event} {content : List Message}
  {events : List Event}

/-! ## What a service relies on, and when it gets it -/

/-- The responses that the calls have returned. -/
def answers (s : Service) : List Mail := s.returned.filterMap fun sent => sent.2.2

def Answers (message : Message) (result : SendResult) : Prop :=
  result.1 = .Success → ∃ rxmsg, result.2 = some rxmsg ∧ rxmsg.message.uniID = message.uniID

/-- A call that has succeeded has returned its response; and between two calls what has
been handled and what is in the mailbox are all the other messages in the order in which
they arrived. -/
def Keeps (s : Service) : Prop :=
  (∀ sent ∈ s.returned, Answers sent.1 sent.2) ∧
    (s.call = none → s.handled ++ s.mailbox = s.arrivals.filter fun mail => mail ∉ s.answers)

/-- When the wait ends, and as long as not all of the messages that have been put aside are
back, nothing gets in front of them. -/
def NothingBetween (name : Name) (s : Service) : Event → Prop
  | .arrive _ =>
      match s.call with
      | some ⟨_, tempMsg, some _⟩ => tempMsg = []
      | _ => True
  | .receive =>
      match s.call, s.mailbox with
      | some ⟨message, tempMsg, none⟩, rxmsg :: mailbox =>
          rxmsg.message.uniID = message.uniID ∧ message.sender = name →
            tempMsg = [] ∨ mailbox = []
      | _, _ => True
  | .timeout =>
      match s.call with
      | some ⟨_, tempMsg, none⟩ => tempMsg = [] ∨ s.mailbox = []
      | _ => True
  | _ => True

/-! ## The events -/

/-- What an event does to each kind of state. -/
inductive Moves (name : Name) : Service → Event → Service → Prop where
  | skip {s : Service} {e : Event} (h : NothingBetween name s e) : Moves name s e s
  | arrive {msg mailbox call handled returned arrivals} :
      Moves name ⟨mailbox, call, handled, returned, arrivals⟩ (.arrive msg)
        ⟨mailbox ++ [⟨arrivals.length, msg⟩], call, handled, returned,
          arrivals ++ [⟨arrivals.length, msg⟩]⟩
  | processBus {msg mailbox handled returned arrivals} :
      Moves name ⟨msg :: mailbox, none, handled, returned, arrivals⟩ .processBus
        ⟨mailbox, none, handled ++ [msg], returned, arrivals⟩
  | unicastSync {message mailbox handled returned arrivals} :
      Moves name ⟨mailbox, none, handled, returned, arrivals⟩ (.unicastSync message)
        ⟨mailbox, some ⟨message, [], none⟩, handled, returned, arrivals⟩
  | response {rxmsg message tempMsg mailbox handled returned arrivals}
      (h : rxmsg.message.uniID = message.uniID ∧ message.sender = name) :
      Moves name
        ⟨rxmsg :: mailbox, some ⟨message, tempMsg, none⟩, handled, returned, arrivals⟩ .receive
        ⟨mailbox, some ⟨message, tempMsg, some (.Success, some rxmsg)⟩, handled, returned,
          arrivals⟩
  | putAside {rxmsg message tempMsg mailbox handled returned arrivals}
      (h : ¬ (rxmsg.message.uniID = message.uniID ∧ message.sender = name)) :
      Moves name
        ⟨rxmsg :: mailbox, some ⟨message, tempMsg, none⟩, handled, returned, arrivals⟩ .receive
        ⟨mailbox, some ⟨message, tempMsg ++ [rxmsg], none⟩, handled, returned, arrivals⟩
  | timeout {message tempMsg mailbox handled returned arrivals} :
      Moves name
        ⟨mailbox, some ⟨message, tempMsg, none⟩, handled, returned, arrivals⟩ .timeout
        ⟨mailbox, some ⟨message, tempMsg, some (.Timeout, none)⟩, handled, returned, arrivals⟩
  | restore {w message tempMsg result mailbox handled returned arrivals} :
      Moves name
        ⟨mailbox, some ⟨message, w :: tempMsg, some result⟩, handled, returned, arrivals⟩ .restore
        ⟨mailbox ++ [w], some ⟨message, tempMsg, some result⟩, handled, returned, arrivals⟩
  | done {message result mailbox handled returned arrivals} :
      Moves name
        ⟨mailbox, some ⟨message, [], some result⟩, handled, returned, arrivals⟩ .restore
        ⟨mailbox, none, handled, returned ++ [(message, result)], arrivals⟩

theorem moves_step : Moves name s e (step name s e) := by
  obtain ⟨mailbox, call, handled, returned, arrivals⟩ := s
  cases e with
  | arrive msg => exact Moves.arrive
  | processBus =>
      rcases call with _ | call
      · cases mailbox with
        | nil => exact Moves.skip trivial
        | cons msg mailbox => exact Moves.processBus
      · exact Moves.skip trivial
  | unicastSync message =>
      rcases call with _ | call
      · exact Moves.unicastSync
      · exact Moves.skip trivial
  | receive =>
      rcases call with _ | ⟨message, tempMsg, _ | result⟩
      · exact Moves.skip trivial
      · cases mailbox with
        | nil => exact Moves.skip trivial
        | cons rxmsg mailbox =>
            by_cases h : rxmsg.message.uniID = message.uniID ∧ message.sender = name
            · simp only [step, Mailbox.pop, if_pos h]
              exact Moves.response h
            · simp only [step, Mailbox.pop, if_neg h]
              exact Moves.putAside h
      · exact Moves.skip trivial
  | timeout =>
      rcases call with _ | ⟨message, tempMsg, _ | result⟩
      · exact Moves.skip trivial
      · exact Moves.timeout
      · exact Moves.skip trivial
  | restore =>
      rcases call with _ | ⟨message, _ | ⟨w, tempMsg⟩, _ | result⟩
      · exact Moves.skip trivial
      · exact Moves.skip trivial
      · exact Moves.done
      · exact Moves.skip trivial
      · exact Moves.restore

/-! ## The line -/

/-- The messages that are still to be seen behind those that have been handled, in the
order in which the service is going to see them if nothing else happens. -/
def line (s : Service) : List Mail :=
  s.handled ++
    match s.call with
    | some ⟨_, tempMsg, some _⟩ => s.mailbox ++ tempMsg
    | some ⟨_, tempMsg, none⟩ => tempMsg ++ s.mailbox
    | none => s.mailbox

section Line

variable {message : Message} {result : SendResult} {mailbox tempMsg handled arrivals : List Mail}
  {returned : List (Message × SendResult)}

theorem line_none :
    line ⟨mailbox, none, handled, returned, arrivals⟩ = handled ++ mailbox := rfl

theorem line_waiting :
    line ⟨mailbox, some ⟨message, tempMsg, none⟩, handled, returned, arrivals⟩ =
      handled ++ (tempMsg ++ mailbox) := rfl

theorem line_restoring :
    line ⟨mailbox, some ⟨message, tempMsg, some result⟩, handled, returned, arrivals⟩ =
      handled ++ (mailbox ++ tempMsg) := rfl

end Line

/-- The responses that have been taken out of the line. -/
def taken (s : Service) : List Mail :=
  s.answers ++ (s.call.bind fun call => call.result.bind fun result => result.2).toList

/-- The call has ended its wait, and has not returned yet. -/
def Restoring (s : Service) : Prop :=
  ∃ message tempMsg result, s.call = some ⟨message, tempMsg, some result⟩

structure Inv (s : Service) : Prop where
  numbered : s.arrivals.map (fun mail => mail.number) = List.range s.arrivals.length
  accounted : (s.line ++ s.taken).Perm s.arrivals
  answered : ∀ sent ∈ s.returned, Answers sent.1 sent.2
  answering : ∀ message tempMsg result, s.call = some ⟨message, tempMsg, some result⟩ →
    Answers message result

def Orderly (s : Service) : Prop := InOrder (fun mail => mail.number) s.line

def Disordered (s : Service) : Prop := Restoring s ∧ ¬ Orderly s

theorem answers_concat {message : Message} {result : SendResult} {s : Service} :
    answers { s with returned := s.returned ++ [(message, result)] } =
      s.answers ++ result.2.toList := by
  obtain ⟨code, _ | rxmsg⟩ := result <;> simp [answers]

/-- No event loses a message or doubles one. -/
theorem accounted_of_moves (h : Moves name s e s') (hacc : (s.line ++ s.taken).Perm s.arrivals) :
    (s'.line ++ s'.taken).Perm s'.arrivals := by
  rw [List.perm_iff_count] at hacc ⊢
  intro mail
  have hcount := hacc mail
  cases h with
  | skip => exact hcount
  | @arrive msg mailbox call =>
      rcases call with _ | ⟨message, tempMsg, _ | result⟩ <;>
        simp only [line, taken, answers, List.count_append] at hcount ⊢ <;> omega
  | unicastSync => exact hcount
  | processBus | response | putAside | timeout | restore =>
      simp only [line, taken, answers, Option.bind_some, Option.bind_none, Option.toList,
        List.count_append, List.count_cons, List.count_nil] at hcount ⊢
      omega
  | @done message result mailbox handled returned arrivals =>
      have hanswers := @answers_concat message result ⟨mailbox, none, handled, returned, arrivals⟩
      simp only [line, taken] at hcount ⊢
      rw [hanswers]
      simpa [answers] using hcount

theorem Inv.moves (hinv : Inv s) (h : Moves name s e s') : Inv s' := by
  refine ⟨?_, accounted_of_moves h hinv.accounted, ?_, ?_⟩
  · cases h with
    | arrive =>
        rw [List.map_append, hinv.numbered, List.length_append, List.length_singleton,
          List.range_succ]
        rfl
    | _ => exact hinv.numbered
  · cases h with
    | @done message result =>
        intro sent hmem
        rcases List.mem_append.1 hmem with hbefore | hlast
        · exact hinv.answered sent hbefore
        · rw [List.mem_singleton.1 hlast]
          exact hinv.answering message [] result rfl
    | _ => exact hinv.answered
  · intro message tempMsg result hcall
    cases h with
    | skip | arrive => exact hinv.answering message tempMsg result hcall
    | processBus | unicastSync | putAside | done => cases hcall
    | @response rxmsg _ _ _ _ _ _ huni =>
        cases hcall
        exact fun _ => ⟨rxmsg, rfl, huni.1⟩
    | timeout =>
        cases hcall
        exact fun hsuccess => ReturnCodes.noConfusion hsuccess
    | @restore w message tempMsg result =>
        cases hcall
        exact hinv.answering message (w :: tempMsg) result rfl

/-! ## Order -/

theorem number_lt_of_mem_line {mail : Mail} (hinv : Inv s) (h : mail ∈ s.line) :
    mail.number < s.arrivals.length := by
  have harrived : mail ∈ s.arrivals := hinv.accounted.subset (List.mem_append_left _ h)
  have hnumber := List.mem_map_of_mem (f := fun mail : Mail => mail.number) harrived
  rw [hinv.numbered] at hnumber
  exact List.mem_range.1 hnumber

/-- An event leaves a line that is in order in order exactly when nothing gets in front of
the messages that have been put aside. -/
theorem orderly_moves (hinv : Inv s) (h : Moves name s e s') (hs : Orderly s) :
    Orderly s' ↔ NothingBetween name s e := by
  cases h with
  | skip h => exact iff_of_true hs h
  | @arrive msg mailbox call handled returned arrivals =>
      have hbehind := (inOrder_append_singleton (x := ⟨arrivals.length, msg⟩)
        fun mail hmem => number_lt_of_mem_line hinv hmem).2 hs
      rcases call with _ | ⟨message, tempMsg, _ | result⟩
      · rw [line_none, List.append_assoc] at hbehind
        exact iff_of_true hbehind trivial
      · rw [line_waiting, List.append_assoc, List.append_assoc] at hbehind
        exact iff_of_true hbehind trivial
      · -- The new message gets between the mailbox and what has been put aside.
        have hline : InOrder (fun mail => mail.number)
            ((handled ++ mailbox) ++ (tempMsg ++ ([] ++ [⟨arrivals.length, msg⟩]))) := by
          rw [line_restoring, List.append_assoc, List.append_assoc] at hbehind
          rwa [List.append_assoc, List.nil_append]
        rw [Orderly, line_restoring, List.append_assoc, ← List.append_assoc, inOrder_swap hline]
        exact or_iff_left (List.cons_ne_nil _ _)
  | processBus =>
      rw [Orderly, line_none, List.append_assoc]
      exact iff_of_true hs trivial
  | unicastSync => exact iff_of_true hs trivial
  | @response rxmsg message tempMsg mailbox handled _ _ huni =>
      have hline : InOrder (fun mail => mail.number)
          (handled ++ (tempMsg ++ ([rxmsg] ++ mailbox))) := hs
      refine (inOrder_swap hline).trans ?_
      exact ⟨fun h _ => h, fun h => h huni⟩
  | putAside huni =>
      rw [Orderly, line_waiting, List.append_assoc]
      exact iff_of_true hs fun h => absurd h huni
  | @timeout message tempMsg mailbox handled =>
      have hline : InOrder (fun mail => mail.number) (handled ++ (tempMsg ++ ([] ++ mailbox))) := hs
      exact inOrder_swap hline
  | restore =>
      rw [Orderly, line_restoring, List.append_assoc]
      exact iff_of_true hs trivial
  | @done message result mailbox handled =>
      rw [Orderly, line_restoring, List.append_nil] at hs
      exact iff_of_true hs trivial

theorem restoring_of_breaks (h : Moves name s e s') (hbreaks : ¬ NothingBetween name s e) :
    Restoring s' := by
  cases h with
  | skip h => exact absurd h hbreaks
  | @arrive msg mailbox call =>
      rcases call with _ | ⟨message, tempMsg, _ | result⟩
      · exact absurd trivial hbreaks
      · exact absurd trivial hbreaks
      · exact ⟨message, tempMsg, result, rfl⟩
  | response | timeout | restore => exact ⟨_, _, _, rfl⟩
  | putAside huni => exact absurd (fun h => absurd h huni) hbreaks
  | processBus | unicastSync | done => exact absurd trivial hbreaks

/-- While a call puts messages back, the line only gets longer. -/
theorem line_sublist_of_restoring (h : Moves name s e s') (hs : Restoring s) :
    s.line.Sublist s'.line ∧ (Restoring s' ∨ s'.call = none) := by
  obtain ⟨message, tempMsg, result, hcall⟩ := hs
  cases h with
  | skip => exact ⟨List.Sublist.refl _, Or.inl ⟨message, tempMsg, result, hcall⟩⟩
  | arrive =>
      cases hcall
      refine ⟨?_, Or.inl ⟨message, tempMsg, result, rfl⟩⟩
      exact List.Sublist.append_left
        (List.Sublist.append_right (List.sublist_append_left _ _) _) _
  | processBus | unicastSync | response | putAside | timeout => cases hcall
  | restore =>
      refine ⟨?_, Or.inl ⟨_, _, _, rfl⟩⟩
      rw [line_restoring, line_restoring, List.append_assoc]
      exact List.Sublist.refl _
  | done =>
      refine ⟨?_, Or.inr rfl⟩
      rw [line_restoring, List.append_nil]
      exact List.Sublist.refl _

/-! ## Whole runs -/

theorem keeps_iff_orderly (hinv : Inv s) (hcall : s.call = none) : Keeps s ↔ Orderly s := by
  obtain ⟨mailbox, call, handled, returned, arrivals⟩ := s
  cases hcall
  have hall : InOrder (fun mail => mail.number) arrivals := by
    refine inOrder_of_map ?_
    rw [hinv.numbered]
    exact List.pairwise_lt_range
  have hperm := hinv.accounted
  rw [line_none, taken, Option.bind_none, Option.toList, List.append_nil] at hperm
  have hfilter := eq_filter_iff_inOrder hall hperm
  exact ⟨fun h => hfilter.1 (h.2 rfl), fun h => ⟨hinv.answered, fun _ => hfilter.2 h⟩⟩

theorem keeps_of_orderly (hinv : Inv s) (hs : Orderly s) : Keeps s := by
  by_cases hcall : s.call = none
  · exact (keeps_iff_orderly hinv hcall).2 hs
  · exact ⟨hinv.answered, fun hnone => absurd hnone hcall⟩

theorem numbered_start :
    (start content).arrivals.map (fun mail => mail.number) =
      List.range (start content).arrivals.length := by
  simp [start, List.map_map, Function.comp_def, List.range_eq_range']

theorem inv_start : Inv (start content) := by
  refine ⟨numbered_start, ?_, ?_, ?_⟩
  · rw [start, line_none, taken]
    simp [answers]
  · intro sent hmem
    exact absurd hmem List.not_mem_nil
  · intro message tempMsg result hcall
    cases hcall

theorem orderly_start : Orderly (start content) := by
  refine inOrder_of_map ?_
  have hline : (start content).line = (start content).arrivals := rfl
  rw [hline, numbered_start]
  exact List.pairwise_lt_range

theorem inv_step (hinv : Inv s) : Inv (step name s e) := hinv.moves moves_step

theorem step_of_nothingBetween (hinv : Inv s) (hs : Orderly s) (hrule : NothingBetween name s e) :
    Orderly (step name s e) ∧ Keeps (step name s e) := by
  have hnext := (orderly_moves hinv moves_step hs).2 hrule
  exact ⟨hnext, keeps_of_orderly (inv_step hinv) hnext⟩

theorem step_of_breaks (hinv : Inv s) (hs : Orderly s) (hbreaks : ¬ NothingBetween name s e) :
    Disordered (step name s e) :=
  ⟨restoring_of_breaks moves_step hbreaks,
    fun hnext => hbreaks ((orderly_moves hinv moves_step hs).1 hnext)⟩

/-- A line that is out of order is so until the call returns, and then in the mailbox. -/
theorem step_of_disordered (hinv : Inv s) (hs : Disordered s) :
    Disordered (step name s e) ∨ ¬ Keeps (step name s e) := by
  obtain ⟨hsub, hphase⟩ := @line_sublist_of_restoring name s _ e moves_step hs.1
  have hnext : ¬ Orderly (step name s e) := fun h => hs.2 (h.sublist hsub)
  rcases hphase with hrestoring | hreturned
  · exact Or.inl ⟨hrestoring, hnext⟩
  · exact Or.inr fun hkeeps => hnext ((keeps_iff_orderly (inv_step hinv) hreturned).1 hkeeps)

/-- A service whose calls have all returned has kept the order of its messages throughout
exactly when at the end of each wait, and until all messages were back, nothing got in
front of those put aside. -/
theorem everyStep_keeps_iff (hend : (run name (start content) events).call = none) :
    EveryStep (fun s e => Keeps (step name s e)) (step name) (start content) events ↔
      EveryStep (NothingBetween name) (step name) (start content) events := by
  have hsettled : ¬ Disordered (run name (start content) events) := by
    rintro ⟨⟨message, tempMsg, result, hcall⟩, -⟩
    rw [hend] at hcall
    cases hcall
  exact @everyStep_iff_of_shows _ _ Inv Orderly Disordered _ _ _ (fun _ _ => inv_step)
    (fun _ _ => step_of_nothingBetween) (fun _ _ => step_of_breaks)
    (fun _ _ => step_of_disordered) _ _ inv_start orderly_start hsettled

section Examples

/-- A request with the number 1, its response, and two messages of another service. -/
def request : Message := ⟨1, [97]⟩
def response : Message := ⟨1, [98]⟩
def earlier : Message := ⟨7, [99]⟩
def later : Message := ⟨8, [99]⟩

theorem everyStep_keeps_iff_putAside :
    (run [97] (start [earlier, response])
      [.unicastSync request, .receive, .receive, .restore, .restore, .arrive later]).call = none ∧
    (EveryStep (fun s e => Keeps (step [97] s e)) (step [97]) (start [earlier, response])
        [.unicastSync request, .receive, .receive, .restore, .restore, .arrive later] ↔
      EveryStep (NothingBetween [97]) (step [97]) (start [earlier, response])
        [.unicastSync request, .receive, .receive, .restore, .restore, .arrive later]) :=
  ⟨rfl, everyStep_keeps_iff rfl⟩

/-- The later of two messages is handled first, because the response stood between them. -/
theorem handled_in_reverse :
    ¬ Keeps (run [97] (start [earlier, response, later])
        [.unicastSync request, .receive, .receive, .restore, .restore]) ∧
    (run [97] (start [earlier, response, later])
        [.unicastSync request, .receive, .receive, .restore, .restore, .processBus,
          .processBus]).handled.map (fun mail => mail.message) = [later, earlier] := by
  refine ⟨?_, rfl⟩
  rintro ⟨-, hline⟩
  exact absurd (hline rfl) (by decide)

end Examples

end MuditaOS.Sys.Service

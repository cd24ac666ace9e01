import Mathlib.Data.List.Basic

/-!
# Synchronous sends on the bus

A transcription of `Bus::UnicastSync` and of the mailbox that it waits on, within the run
of the service that calls it: `Service::processBus` takes the messages out one by one, and
what handles a message may send, again and again, a request and wait for its response.
Meanwhile the other services push. Each call of the mailbox holds its lock, so what comes
between two of them may be the push of any service. The clock is not modelled: a wait may
time out in front of any call of `pop`, and in it.
-/

namespace MuditaOS.Sys

/-! ## Mailboxes -/

namespace Mailbox

variable {α : Type}

def push (queue : List α) (item : α) : List α := queue ++ [item]

/-- The front item; `none` where `pop` waits for one. -/
def pop : List α → Option (α × List α)
  | [] => none
  | item :: queue => some (item, queue)

end Mailbox

/-! ## Messages -/

/-- The name of a service. -/
abbrev Name := List UInt8

inductive ReturnCodes where
  | Success
  | Failure
  | Timeout
  | ServiceDoesntExist
  | Unresolved
  deriving DecidableEq, Repr

structure Message where
  uniID : UInt64
  sender : Name
  deriving DecidableEq, Repr

/-- A message in a mailbox. The code has a pointer to it; here it is known by the number
of its arrival. -/
structure Mail where
  number : Nat
  message : Message
  deriving DecidableEq, Repr

abbrev SendResult := ReturnCodes × Option Mail

def createSendResult (retCode : ReturnCodes) (msg : Option Mail) : SendResult := (retCode, msg)

/-! ## The run of a service -/

/-- A call of `UnicastSync`. -/
structure UnicastSync where
  message : Message
  tempMsg : List Mail
  /-- What the call is going to return, once the wait has ended. -/
  result : Option SendResult
  deriving DecidableEq, Repr

structure Service where
  mailbox : List Mail
  /-- The synchronous send that the service is in. -/
  call : Option UnicastSync
  /-- What `processBus` has taken out of the mailbox. -/
  handled : List Mail
  /-- What each call has returned to its request. -/
  returned : List (Message × SendResult)
  /-- All that has come into the mailbox from outside, in this order. -/
  arrivals : List Mail
  deriving DecidableEq, Repr

inductive Event where
  /-- A service pushes a message. -/
  | arrive (msg : Message)
  | processBus
  | unicastSync (message : Message)
  /-- The wait takes a message out of the mailbox. -/
  | receive
  /-- The wait times out. -/
  | timeout
  /-- The next round of `restoreMessagess`; the call returns after the last. -/
  | restore
  deriving DecidableEq, Repr

namespace Service

/-- The messages in the mailbox at the beginning have come before. -/
def start (content : List Message) : Service :=
  let mails := content.zipIdx.map fun msg => ⟨msg.2, msg.1⟩
  ⟨mails, none, [], [], mails⟩

/-- One event at the service of this name. An event that cannot take place is skipped. -/
def step (name : Name) (s : Service) : Event → Service
  | .arrive msg =>
      let mail : Mail := ⟨s.arrivals.length, msg⟩
      { s with mailbox := Mailbox.push s.mailbox mail, arrivals := s.arrivals ++ [mail] }
  | .processBus =>
      match s.call, Mailbox.pop s.mailbox with
      | none, some (msg, mailbox) => { s with mailbox, handled := s.handled ++ [msg] }
      | _, _ => s
  | .unicastSync message =>
      match s.call with
      | none => { s with call := some ⟨message, [], none⟩ }
      | some _ => s
  | .receive =>
      match s.call, Mailbox.pop s.mailbox with
      | some ⟨message, tempMsg, none⟩, some (rxmsg, mailbox) =>
          if rxmsg.message.uniID = message.uniID ∧ message.sender = name then
            { s with
              mailbox
              call := some ⟨message, tempMsg, some (createSendResult .Success (some rxmsg))⟩ }
          else { s with mailbox, call := some ⟨message, tempMsg ++ [rxmsg], none⟩ }
      | _, _ => s
  | .timeout =>
      match s.call with
      | some ⟨message, tempMsg, none⟩ =>
          { s with call := some ⟨message, tempMsg, some (createSendResult .Timeout none)⟩ }
      | _ => s
  | .restore =>
      match s.call with
      | some ⟨message, w :: tempMsg, some result⟩ =>
          { s with
            mailbox := Mailbox.push s.mailbox w
            call := some ⟨message, tempMsg, some result⟩ }
      | some ⟨message, [], some result⟩ =>
          { s with call := none, returned := s.returned ++ [(message, result)] }
      | _ => s

def run (name : Name) (s : Service) (events : List Event) : Service := events.foldl (step name) s

end Service

/-- By this names are looked up in lists. -/
scoped instance instLawfulBEqName : LawfulBEq Name := inferInstance

end MuditaOS.Sys

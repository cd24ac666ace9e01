import MuditaOS.Lib.InOrder
import MuditaOS.Log.LoggerBuffer

/-!
# The logger

Messages go into one of two buffers while the worker writes the other to a file. The buffers
change places when the one that is written to is full, every fifteen minutes, and when a
diagnostic dump is asked for; the worker takes its logs at any time after that. A call of the
logger is not interrupted by another one.
-/

namespace MuditaOS.Log

open Lib

abbrev numberOfBuffers : Nat := 2

/-- The buffers, and those that `currentBuffer` and `flushBuffer` point to. -/
structure LoggerBufferContainer where
  circularBufferSize : Nat
  currentIndex : Fin numberOfBuffers
  buffer : Fin numberOfBuffers → LoggerBuffer
  currentBuffer : Fin numberOfBuffers
  flushBuffer : Fin numberOfBuffers

namespace LoggerBufferContainer

def create (circularBufferSize : Nat) : LoggerBufferContainer where
  circularBufferSize := circularBufferSize
  currentIndex := 0
  buffer _ := .create circularBufferSize
  currentBuffer := 0
  flushBuffer := 0

def getFlushBuffer (container : LoggerBufferContainer) : LoggerBuffer :=
  container.buffer container.flushBuffer

def getCurrentBuffer (container : LoggerBufferContainer) : LoggerBuffer :=
  container.buffer container.currentBuffer

/-- A buffer in the place of the one at an index. -/
def replace (index : Fin numberOfBuffers) (buffer : LoggerBuffer)
    (container : LoggerBufferContainer) : LoggerBufferContainer :=
  { container with buffer := fun i => if i = index then buffer else container.buffer i }

def nextBuffer (container : LoggerBufferContainer) : LoggerBufferContainer :=
  { container with
    currentIndex := container.currentIndex + 1
    flushBuffer := container.currentBuffer
    currentBuffer := container.currentIndex + 1 }

/-- The buffer that a switch makes the current one. -/
def otherBuffer (container : LoggerBufferContainer) : LoggerBuffer :=
  container.buffer (container.currentIndex + 1)

end LoggerBufferContainer

namespace Logger

/-- Whether `checkBufferState` switches, before a message is put. -/
def fills (container : LoggerBufferContainer) : Bool :=
  container.circularBufferSize ≤ container.getCurrentBuffer.size + 1

def checkBufferState (container : LoggerBufferContainer) : LoggerBufferContainer :=
  if container.circularBufferSize ≤ container.getCurrentBuffer.size then container.nextBuffer
  else container

/-- The end of `writeLog`, once the line is made. -/
def log (message : LogMessage) (container : LoggerBufferContainer) : LoggerBufferContainer :=
  checkBufferState
    (container.replace container.currentBuffer (container.getCurrentBuffer.put message))

def getLogs (container : LoggerBufferContainer) : List LogEntry × LoggerBufferContainer :=
  let (entries, emptied) := LoggerBuffer.takeAll container.getFlushBuffer.size
    container.getFlushBuffer
  (entries, container.replace container.flushBuffer emptied)

end Logger

/-! ## Sessions -/

inductive LogCall
  | log (text : String)
  /-- `writeLogsTimer` goes off. -/
  | writeLogsTimer
  | diagnosticDump
  | getLogs
  deriving DecidableEq, Repr

/-- The logger, with what has been logged, what was given up for it and what `getLogs` has
returned. -/
structure LogSession where
  container : LoggerBufferContainer
  logged : List LogMessage
  lost : List LogMessage
  returned : List LogEntry

namespace LogSession

def start (circularBufferSize : ℕ+) : LogSession where
  container := .create circularBufferSize
  logged := []
  lost := []
  returned := []

/-- The message that a full buffer gives up. -/
def givenUp (buffer : LoggerBuffer) : Option LogMessage :=
  if buffer.isFull then buffer.toStringCircularBuffer.get.1 else none

def step (s : LogSession) : LogCall → LogSession
  | .log text =>
      let message : LogMessage := ⟨s.logged.length, text⟩
      { s with
        container := Logger.log message s.container
        logged := s.logged ++ [message]
        lost := s.lost ++ (givenUp s.container.getCurrentBuffer).toList }
  | .writeLogsTimer => { s with container := s.container.nextBuffer }
  | .diagnosticDump => { s with container := s.container.nextBuffer }
  | .getLogs =>
      { s with
        container := (Logger.getLogs s.container).2
        returned := s.returned ++ (Logger.getLogs s.container).1 }

/-- The messages in a buffer, the oldest first. -/
def messages (buffer : LoggerBuffer) : List LogMessage :=
  (LoggerBuffer.takeAll buffer.size buffer).1.map LogEntry.message

/-- The messages that have been returned, and would be if both buffers were written to the
file now. -/
def writtenOut (s : LogSession) : List LogMessage :=
  (((s.step .getLogs).step .writeLogsTimer).step .getLogs).returned.map LogEntry.message

/-- Every message is in one of the buffers, has been returned or was given up, and just one of
these; the bytes of those given up are counted in the lines returned and in those to come. -/
structure Accounted (s : LogSession) : Prop where
  messages : (s.returned.map LogEntry.message ++ messages (s.container.buffer 0) ++
    messages (s.container.buffer 1) ++ s.lost).Perm s.logged
  bytes : UInt32.ofNat (s.lost.map LogMessage.length).sum =
    (s.returned.map LogEntry.lost).sum + (s.container.buffer 0).numOfLostBytes +
      (s.container.buffer 1).numOfLostBytes

/-- What has been returned is in order, and what is still in the buffers belongs behind it. -/
structure Kept (s : LogSession) : Prop where
  accounted : s.Accounted
  returned : InOrder LogMessage.number (s.returned.map LogEntry.message)
  writtenOut : InOrder LogMessage.number s.writtenOut

/-- The buffers change places only when one of them is empty. -/
def Drained (s : LogSession) : LogCall → Prop
  | .log _ => Logger.fills s.container → s.container.otherBuffer.isEmpty
  | .writeLogsTimer | .diagnosticDump =>
      s.container.otherBuffer.isEmpty ∨ s.container.getCurrentBuffer.isEmpty
  | .getLogs => True

end LogSession

end MuditaOS.Log

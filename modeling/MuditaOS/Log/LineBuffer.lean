import Mathlib.Data.UInt
import MuditaOS.Lib.Numeral

/-!
# The line buffer of the logger

A transcription of `Logger::log` down to the line that is put into the current buffer.
What `snprintf` is asked for stands here as the text that the format and its arguments come
to, if there is one. Indices into the buffer and sizes are unsigned numbers of 32 bits, and
behind the buffer there is other memory. The assertion is noted and not waited for.
-/

namespace MuditaOS.Log

open Lib

inductive LoggerLevel where
  | logTrace
  | logDebug
  | logInfo
  | logWarn
  | logError
  | logFatal
  deriving DecidableEq, Repr

namespace LoggerLevel

def toNat : LoggerLevel → Nat
  | logTrace => 0
  | logDebug => 1
  | logInfo => 2
  | logWarn => 3
  | logError => 4
  | logFatal => 5

/-- `levelNames`: `TRACE` and so on. -/
def name : LoggerLevel → List UInt8
  | logTrace => [0x54, 0x52, 0x41, 0x43, 0x45]
  | logDebug => [0x44, 0x45, 0x42, 0x55, 0x47]
  | logInfo => [0x49, 0x4E, 0x46, 0x4F]
  | logWarn => [0x57, 0x41, 0x52, 0x4E]
  | logError => [0x45, 0x52, 0x52, 0x4F, 0x52]
  | logFatal => [0x46, 0x41, 0x54, 0x41, 0x4C]

end LoggerLevel

structure LogColors where
  levelColors : LoggerLevel → List UInt8
  serviceNameColor : List UInt8
  callerInfoColor : List UInt8
  resetColor : List UInt8

/-- An escape sequence that selects a colour, with the digits of its number. -/
def escapeColor (digits : List UInt8) : List UInt8 := [0x1B, 0x5B] ++ digits ++ [0x6D]

def logColorsOn : LogColors where
  levelColors
    | .logTrace => escapeColor [0x39, 0x34]
    | .logDebug => escapeColor [0x33, 0x36]
    | .logInfo => escapeColor [0x33, 0x32]
    | .logWarn => escapeColor [0x33, 0x33]
    | .logError => escapeColor [0x33, 0x31]
    | .logFatal => escapeColor [0x33, 0x35]
  serviceNameColor := escapeColor [0x33, 0x35]
  callerInfoColor := escapeColor [0x39, 0x30]
  resetColor := escapeColor [0x30]

def logColorsOff : LogColors := ⟨fun _ => [], [], [], []⟩

/-- `filtered`; the cellular service is in it unless sensitive data may be logged. -/
def filtered (logSensitiveDataEnabled : Bool) : List (String × LoggerLevel) :=
  [("ApplicationManager", .logInfo), ("CellularMux", .logInfo)] ++
    (if logSensitiveDataEnabled then [] else [("ServiceCellular", .logInfo)]) ++
    [("ServiceAntenna", .logError), ("ServiceAudio", .logInfo), ("ServiceBluetooth", .logInfo),
      ("ServiceBluetooth_w1", .logInfo), ("ServiceFota", .logInfo), ("ServiceEink", .logInfo),
      ("ServiceDB", .logInfo), ("CRIT", .logTrace), ("IRQ", .logTrace),
      ("FileIndexer", .logInfo), ("EventManager", .logInfo)]

/-- Where and when a line is logged. -/
structure LogContext where
  colors : LogColors
  logSensitiveDataEnabled : Bool
  /-- `getTaskDesc()`. -/
  task : List UInt8
  milliseconds : UInt32

def getLogLevel (context : LogContext) : LoggerLevel :=
  (((filtered context.logSensitiveDataEnabled).find? fun entry =>
    entry.1.toUTF8.toList = context.task).map Prod.snd).getD .logTrace

def filterLogs (context : LogContext) (level : LoggerLevel) : Bool :=
  (getLogLevel context).toNat ≤ level.toNat

/-! ## The buffer -/

def lineBufferSize : UInt32 := 2048

/-- The line end, and the zero behind it. -/
def lineTerminationLength : UInt32 := 2

def newline : UInt8 := 0x0A

/-- What is to be kept an eye on. -/
inductive LineEvent where
  /-- What `lineBufferSizeLeft` asserts about, and returns. -/
  | sizeLeft (left : UInt32)
  /-- So many characters are written from a position on. -/
  | write (pos : UInt32) (count : Nat)
  /-- Room for the line end is left in so much. -/
  | room (left : UInt32)
  deriving DecidableEq, Repr

structure Line where
  lineBuffer : Nat → UInt8
  lineBufferCurrentPos : UInt32
  events : List LineEvent

namespace Line

variable (line : Line)

def note (event : LineEvent) : Line := { line with events := line.events ++ [event] }

def advance (count : UInt32) : Line :=
  { line with lineBufferCurrentPos := line.lineBufferCurrentPos + count }

def lineBufferSizeLeft : UInt32 × Line :=
  let sizeLeft := lineBufferSize - line.lineBufferCurrentPos
  (sizeLeft, line.note (.sizeLeft sizeLeft))

/-- Negative where the text does not exist, or its length is no `int`. -/
def formattedLength (text : Option (List UInt8)) : Int :=
  match text with
  | none => -1
  | some text => if text.length < 2 ^ 31 then text.length else -1

/-- `snprintf` to the current position. -/
def snprintf (size : UInt32) (text : Option (List UInt8)) : Int × Line :=
  let pos := line.lineBufferCurrentPos.toNat
  let written := if size = 0 then [] else (text.getD []).take (size.toNat - 1) ++ [0]
  (formattedLength text,
    { line with
      lineBuffer := fun i =>
        if i < pos then line.lineBuffer i else (written[i - pos]?).getD (line.lineBuffer i)
      events := line.events ++ [.write line.lineBufferCurrentPos written.length] })

/-! ## A line -/

/-- A part of the header. -/
def addPart (text : List UInt8) : Line :=
  let (bufferSizeLeft, line) := line.lineBufferSizeLeft
  let (bytesParsed, line) := line.snprintf bufferSizeLeft (some text)
  if 0 ≤ bytesParsed then line.advance (min bufferSizeLeft (.ofInt bytesParsed)) else line

/-- `"%u ms "`. -/
def timeText (milliseconds : UInt32) : List UInt8 :=
  decimal asciiDigit milliseconds.toNat ++ [0x20, 0x6D, 0x73, 0x20]

/-- `"%s%-5s %s[%s] %s%s:%d:%s:%s "`. -/
def callerText (context : LogContext) (level : LoggerLevel) (file : List UInt8) (line : Int)
    (function : List UInt8) : List UInt8 :=
  context.colors.levelColors level ++ level.name.rightpad 5 0x20 ++ [0x20] ++
    context.colors.serviceNameColor ++ [0x5B] ++ context.task ++ [0x5D, 0x20] ++
    context.colors.callerInfoColor ++ file ++ [0x3A] ++ signedDecimal asciiDigit line ++ [0x3A] ++ function ++
    [0x3A] ++ context.colors.resetColor ++ [0x20]

def addLogHeader (context : LogContext) (level : LoggerLevel) (file : List UInt8)
    (lineNumber : Int) (function : List UInt8) : Line :=
  (line.addPart (timeText context.milliseconds)).addPart
    (callerText context level file lineNumber function)

/-- What is returned, and the line that is stored; `message` is what the format and its
arguments come to. -/
def writeLog (message : Option (List UInt8)) : Int × Option (List UInt8) × Line :=
  let (bufferSizeLeft, line) := line.lineBufferSizeLeft
  let (bytesParsed, line) := line.snprintf bufferSizeLeft message
  if 0 ≤ bytesParsed then
    let line := line.note (.room bufferSizeLeft)
    let line := line.advance (min (bufferSizeLeft - lineTerminationLength) (.ofInt bytesParsed))
    let (bufferSizeLeft, line) := line.lineBufferSizeLeft
    let (bytesParsed, line) := line.snprintf bufferSizeLeft (some [newline])
    let line := line.advance (.ofInt bytesParsed)
    ((line.lineBufferCurrentPos.toNat : Int),
      some ((List.range line.lineBufferCurrentPos.toNat).map line.lineBuffer), line)
  else (-1, none, line)

/-- The buffer as the last line left it, to be written from its begin on. -/
def restart (lineBuffer : Nat → UInt8) : Line := ⟨lineBuffer, 0, []⟩

end Line

/-- `log` for a device. -/
def logDevice (lineBuffer : Nat → UInt8) (message : Option (List UInt8)) :
    Int × Option (List UInt8) × Line :=
  (Line.restart lineBuffer).writeLog message

/-- `log` for a level. -/
def logLevel (lineBuffer : Nat → UInt8) (context : LogContext) (level : LoggerLevel)
    (file : List UInt8) (line : Int) (function : List UInt8) (message : Option (List UInt8)) :
    Int × Option (List UInt8) × Line :=
  if !filterLogs context level then (-1, none, Line.restart lineBuffer)
  else ((Line.restart lineBuffer).addLogHeader context level file line function).writeLog message

end MuditaOS.Log

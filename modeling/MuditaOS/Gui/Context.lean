import Mathlib
import MuditaOS.Lib.Slots

/-!
# The drawing context

A transcription of `core/Context.cpp` and of the part of `core/BoundingBox.cpp` it uses. A
context is a picture of one byte a pixel, line after line; its data are as long as its
size says, and two contexts that are compared have one size. A position is an `int32_t`
and may lie outside the picture; the offsets computed from an intersection never do.
-/

namespace MuditaOS.Gui

open MuditaOS.Lib

structure BoundingBox where
  x : Int
  y : Int
  w : Nat
  h : Nat
  deriving DecidableEq, Repr

/-- `result` when the two overlap. One of the boxes starts at the origin in every call, so
that the ends compared as `uint32_t` are not negative. -/
def BoundingBox.intersect (box1 box2 : BoundingBox) : Option BoundingBox :=
  let (l, r) := if box1.x < box2.x then (box1, box2) else (box2, box1)
  let w := l.x + l.w - r.x
  if w ≤ 0 then none
  else
    let w := if r.x + r.w ≤ l.x + l.w then (r.w : Int) else w
    let (l, u) := if box1.y < box2.y then (box1, box2) else (box2, box1)
    let h := l.y + l.h - u.y
    if h ≤ 0 then none
    else
      let h := if u.y + u.h ≤ l.y + l.h then (u.h : Int) else h
      some ⟨r.x, u.y, w.toNat, h.toNat⟩

/-- An overwrite that does not lengthen the block. -/
def memcpy (dest : List UInt8) (offset : Nat) (src : List UInt8) : List UInt8 :=
  (patch dest offset src).take dest.length

@[simp] theorem length_memcpy {dest src : List UInt8} {offset : Nat} :
    (memcpy dest offset src).length = dest.length := by
  simp only [memcpy, patch, List.length_take, List.length_append, List.length_drop]
  omega

@[ext]
structure Context (w h : Nat) where
  data : List UInt8
  length_data : data.length = w * h
  deriving DecidableEq

namespace Context

variable {w h : Nat}

def clearColor : UInt8 := 15

def init (w h : Nat) : Context w h := ⟨List.replicate (w * h) clearColor, List.length_replicate⟩

def hasPixel (_ : Context w h) (x y : Int) : Bool := 0 ≤ x ∧ x < w ∧ 0 ≤ y ∧ y < h

def getPixel (ctx : Context w h) (x y : Int) (defaultColor : UInt8) : UInt8 :=
  if ctx.hasPixel x y then ctx.data.getD (y * w + x).toNat 0 else defaultColor

def fill (_ : Context w h) (colour : UInt8) : Context w h :=
  ⟨List.replicate (w * h) colour, List.length_replicate⟩

/-- `memcpy` of `count` lines of `width` pixels, each offset moved by its picture's width. -/
def copyLines (source : List UInt8) (sourceWidth destWidth width : Nat) :
    Nat → Nat → Nat → List UInt8 → List UInt8
  | 0, _, _, dest => dest
  | count + 1, sourceOffset, destOffset, dest =>
      copyLines source sourceWidth destWidth width count (sourceOffset + sourceWidth)
        (destOffset + destWidth)
        (memcpy dest destOffset ((source.drop sourceOffset).take width))

@[simp] theorem length_copyLines {source : List UInt8} {sourceWidth destWidth width : Nat} :
    ∀ {count sourceOffset destOffset : Nat} {dest : List UInt8},
      (copyLines source sourceWidth destWidth width count sourceOffset destOffset dest).length =
        dest.length := by
  intro count
  induction count with
  | zero => intro _ _ _; rfl
  | succ count ih => intro _ _ _; rw [copyLines, ih, length_memcpy]

/-- The picture inside the rectangle, of the rectangle's size; `gy + height` is computed in a
`uint16_t`. -/
def get (ctx : Context w h) (gx gy : Int) (width height : Nat) : Context width height :=
  let ret := init width height
  if gx = 0 ∧ width = w ∧ 0 ≤ gy ∧ (gy + height) % 65536 ≤ h then
    ⟨memcpy ret.data 0 ((ctx.data.drop (gy * w).toNat).take (w * height)),
      by rw [length_memcpy, ret.length_data]⟩
  else
    match BoundingBox.intersect ⟨0, 0, w, h⟩ ⟨gx, gy, width, height⟩ with
    | none => ret
    | some box =>
        ⟨copyLines ctx.data w width box.w box.h (box.y * w + box.x).toNat
            ((box.y - gy) * width + (box.x - gx)).toNat ret.data,
          by rw [length_copyLines, ret.length_data]⟩

def insert {width height : Nat} (ctx : Context w h) (ix iy : Int)
    (context : Context width height) : Context w h :=
  if ix = 0 ∧ width = w ∧ 0 ≤ iy ∧ (iy + height) % 65536 ≤ h then
    ⟨memcpy ctx.data (iy * w).toNat (context.data.take (w * height)),
      by rw [length_memcpy, ctx.length_data]⟩
  else
    match BoundingBox.intersect ⟨0, 0, w, h⟩ ⟨ix, iy, width, height⟩ with
    | none => ctx
    | some box =>
        ⟨copyLines context.data width w box.w box.h
            ((box.y - iy) * width + (box.x - ix)).toNat (box.y * w + box.x).toNat ctx.data,
          by rw [length_copyLines, ctx.length_data]⟩

/-! ## Lines that differ -/

/-- `end` is `stop`. -/
structure LRange where
  begin : Nat
  stop : Nat
  deriving DecidableEq, Repr

def LRange.inversed (stop : Nat) : LRange := ⟨stop, 0⟩

def makeBoundingBox (rangeX rangeY : LRange) : BoundingBox :=
  ⟨rangeX.begin, rangeY.begin, rangeX.stop - rangeX.begin, rangeY.stop - rangeY.begin⟩

/-- `data[i]` of the data read as 64-bit integers. -/
def word (ctx : Context w h) (i : Nat) : List UInt8 := slot 8 ctx.data i

/-- `std::mismatch` over line `y` does not reach its end. -/
def mismatch (ctx1 ctx2 : Context w h) (y : Nat) : Bool :=
  let cw := w / 8
  (List.range cw).any fun i => ctx1.word (y * cw + i) ≠ ctx2.word (y * cw + i)

def linesDiffsStep (ctx1 ctx2 : Context w h) (result : List BoundingBox × LRange) (y : Nat) :
    List BoundingBox × LRange :=
  let (result, rangeY) := result
  if ctx1.mismatch ctx2 y then
    if rangeY.begin = h then (result, { rangeY with begin := y }) else (result, rangeY)
  else if rangeY.begin ≠ h then
    (result ++ [makeBoundingBox ⟨0, w⟩ { rangeY with stop := y }], LRange.inversed h)
  else (result, rangeY)

def linesDiffs (ctx1 ctx2 : Context w h) : List BoundingBox :=
  let (result, rangeY) := (List.range h).foldl (linesDiffsStep ctx1 ctx2) ([], LRange.inversed h)
  if rangeY.begin ≠ h then
    result ++ [makeBoundingBox ⟨0, w⟩ { rangeY with stop := h }]
  else result

end Context

end MuditaOS.Gui

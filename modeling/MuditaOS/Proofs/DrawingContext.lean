import MuditaOS.Gui.Context
import MuditaOS.Lib.Bands

/-!
# What a drawing context holds

`insert` and `get` copy the whole block at once where the picture covers whole lines of the
other one, and line by line through the intersection of the two otherwise. Both ways come
to the same: a pixel of the result is the pixel at the shifted place wherever there is one.
`linesDiffs` finds the lines that differ, all of them and no other.
-/

namespace MuditaOS.Gui

open MuditaOS.Lib

/-! ## Copying -/

theorem getElem?_memcpy {dest src : List UInt8} {offset i : Nat} (hi : i < dest.length)
    (hoffset : offset ≤ dest.length) :
    (memcpy dest offset src)[i]? =
      if offset ≤ i ∧ i < offset + src.length then src[i - offset]? else dest[i]? := by
  rw [memcpy, List.getElem?_take_of_lt hi, patch]
  have hfront : (dest.take offset).length = offset := by
    rw [List.length_take]
    omega
  by_cases hlt : i < offset
  · rw [if_neg (by omega), List.append_assoc, List.getElem?_append_left (by omega),
      List.getElem?_take_of_lt hlt]
  · by_cases hin : i < offset + src.length
    · rw [if_pos (by omega), List.append_assoc, List.getElem?_append_right (by omega), hfront,
        List.getElem?_append_left (by omega)]
    · have hboth : (dest.take offset ++ src).length = offset + src.length := by
        rw [List.length_append, hfront]
      rw [if_neg (by omega), List.getElem?_append_right (by omega), hboth, List.getElem?_drop]
      congr 1
      omega

namespace Context

/-- Where a line-wise copy lands: `count` lines from line `line` on, from column `column` on. -/
theorem getElem?_copyLines {source : List UInt8} {sourceWidth w width column x y : Nat}
    (hcolumn : column + width ≤ w) (hx : x < w) :
    ∀ {count sourceOffset line : Nat} {dest : List UInt8}, (line + count) * w ≤ dest.length →
      y * w + x < dest.length → (0 < count →
        sourceOffset + (count - 1) * sourceWidth + width ≤ source.length) →
      (copyLines source sourceWidth w width count sourceOffset (line * w + column) dest)[
          y * w + x]? =
        if line ≤ y ∧ y < line + count ∧ column ≤ x ∧ x < column + width then
          source[sourceOffset + (y - line) * sourceWidth + (x - column)]?
        else dest[y * w + x]? := by
  intro count
  induction count with
  | zero => intro _ _ _ _ _ _; rw [copyLines, if_neg (by omega)]
  | succ count ih =>
      intro sourceOffset line dest hdest hi hsource
      have hlast := hsource (Nat.succ_pos count)
      rw [Nat.add_sub_cancel] at hlast
      have hlen : ((source.drop sourceOffset).take width).length = width := by
        rw [List.length_take, List.length_drop]
        omega
      have hline : line * w + w ≤ dest.length := by
        refine Nat.le_trans ?_ hdest
        rw [← Nat.succ_mul]
        exact Nat.mul_le_mul_right w (by omega)
      have hnext : line * w + column + w = (line + 1) * w + column := by
        rw [Nat.succ_mul]
        omega
      rw [copyLines, hnext, ih (by rw [length_memcpy]; rwa [Nat.add_right_comm])
        (by rwa [length_memcpy]) (fun hpos => by
          obtain ⟨c, rfl⟩ := Nat.exists_eq_add_of_lt hpos
          have : (0 + c + 1 - 1 + 1) * sourceWidth = (0 + c + 1 - 1) * sourceWidth + sourceWidth :=
            Nat.succ_mul _ _
          rw [show 0 + c + 1 = 0 + c + 1 - 1 + 1 by omega] at hlast
          omega),
        getElem?_memcpy hi (by omega), hlen]
      -- the byte lies in this line, in a later one, or in none of them
      have hthis : (line * w + column ≤ y * w + x ∧ y * w + x < line * w + column + width) ↔
          y = line ∧ column ≤ x ∧ x < column + width := by
        constructor
        · rintro ⟨hle, hlt⟩
          have hy : y = line := by
            rcases Nat.lt_trichotomy y line with h | h | h
            · have := Nat.mul_le_mul_right w (Nat.succ_le_of_lt h)
              rw [Nat.succ_mul] at this
              omega
            · exact h
            · have := Nat.mul_le_mul_right w (Nat.succ_le_of_lt h)
              rw [Nat.succ_mul] at this
              omega
          subst hy
          omega
        · rintro ⟨rfl, h⟩
          omega
      by_cases hy : y = line
      · subst hy
        rw [if_neg (by omega)]
        by_cases hcol : column ≤ x ∧ x < column + width
        · rw [if_pos (by omega), if_pos (by omega), List.getElem?_take_of_lt (by omega),
            List.getElem?_drop]
          congr 1
          rw [Nat.sub_self, Nat.zero_mul]
          omega
        · rw [if_neg (by omega), if_neg (by omega)]
      · rw [if_neg fun h => hy (hthis.1 h).1]
        by_cases hin : line + 1 ≤ y ∧ y < line + 1 + count ∧ column ≤ x ∧ x < column + width
        · rw [if_pos hin, if_pos (by omega)]
          congr 1
          rw [show y - line = y - (line + 1) + 1 by omega, Nat.succ_mul]
          omega
        · rw [if_neg hin, if_neg (by omega)]

end Context

/-! ## Intersections -/

theorem BoundingBox.intersect_some {box1 box2 box : BoundingBox}
    (h : box1.intersect box2 = some box) :
    box.x = max box1.x box2.x ∧ box.x + box.w = min (box1.x + box1.w) (box2.x + box2.w) ∧
      box.y = max box1.y box2.y ∧ box.y + box.h = min (box1.y + box1.h) (box2.y + box2.h) := by
  unfold BoundingBox.intersect at h
  by_cases hx : box1.x < box2.x <;> by_cases hy : box1.y < box2.y <;>
    simp only [hx, hy, if_true, if_false] at h <;>
    split at h <;> try cases h
  all_goals
    split at h <;> cases h
    simp only
    split <;> split <;> omega

theorem BoundingBox.intersect_none {box1 box2 : BoundingBox}
    (h : box1.intersect box2 = none) :
    min (box1.x + box1.w) (box2.x + box2.w) ≤ max box1.x box2.x ∨
      min (box1.y + box1.h) (box2.y + box2.h) ≤ max box1.y box2.y := by
  unfold BoundingBox.intersect at h
  by_cases hx : box1.x < box2.x <;> by_cases hy : box1.y < box2.y <;>
    simp only [hx, hy, if_true, if_false] at h <;>
    split at h <;> try (split at h <;> try cases h)
  all_goals omega

namespace Context

/-! ## Pixels -/

variable {w h : Nat}

theorem hasPixel_iff {ctx : Context w h} {x y : Int} :
    ctx.hasPixel x y = true ↔ 0 ≤ x ∧ x < w ∧ 0 ≤ y ∧ y < h := by
  simp [hasPixel]

theorem getPixel_natCast {ctx : Context w h} {x y : Nat} {colour : UInt8} (hx : x < w)
    (hy : y < h) : ctx.getPixel x y colour = ctx.data.getD (y * w + x) 0 := by
  rw [getPixel, if_pos (hasPixel_iff.2 (by omega))]
  congr 1

theorem mul_le_index {a x y : Nat} (hx : x < w) : a * w ≤ y * w + x ↔ a ≤ y := by
  rw [← Nat.le_div_iff_mul_le (Nat.zero_lt_of_lt hx), Nat.add_comm,
    Nat.add_mul_div_right x y (Nat.zero_lt_of_lt hx), Nat.div_eq_of_lt hx, Nat.zero_add]

theorem index_lt_mul {b x y : Nat} (hx : x < w) : y * w + x < b * w ↔ y < b := by
  rw [← Nat.not_le, mul_le_index hx, Nat.not_le]

theorem index_lt {ctx : Context w h} {x y : Nat} (hx : x < w) (hy : y < h) :
    y * w + x < ctx.data.length := by
  rw [ctx.length_data, Nat.mul_comm w h]
  exact (index_lt_mul hx).2 hy

/-- Two contexts of one size are equal when their pixels are. -/
theorem ext_getPixel {a b : Context w h}
    (hab : ∀ x y : Nat, x < w → y < h → a.getPixel x y 0 = b.getPixel x y 0) : a = b := by
  refine Context.ext (List.ext_getElem (by rw [a.length_data, b.length_data]) fun i ha hb => ?_)
  have hw : 0 < w := Nat.pos_of_ne_zero fun h0 => by
    rw [a.length_data, h0, Nat.zero_mul] at ha
    omega
  have hx : i % w < w := Nat.mod_lt i hw
  have hy : i / w < h := Nat.div_lt_of_lt_mul (a.length_data ▸ ha)
  have hpixel := hab (i % w) (i / w) hx hy
  rwa [getPixel_natCast hx hy, getPixel_natCast hx hy, Nat.div_add_mod',
    List.getD_eq_getElem _ _ ha, List.getD_eq_getElem _ _ hb] at hpixel

/-- A rectangle copied from one context into another. -/
theorem getD_copyLines {width height sx sy tx ty bw bh x y : Nat} {dest : Context w h}
    {source : Context width height} (hsx : sx + bw ≤ width) (hsy : sy + bh ≤ height)
    (htx : tx + bw ≤ w) (hty : ty + bh ≤ h) (hx : x < w) (hy : y < h) :
    (copyLines source.data width w bw bh (sy * width + sx) (ty * w + tx) dest.data).getD
        (y * w + x) 0 =
      if ty ≤ y ∧ y < ty + bh ∧ tx ≤ x ∧ x < tx + bw then
        source.data.getD ((sy + (y - ty)) * width + (sx + (x - tx))) 0
      else dest.data.getD (y * w + x) 0 := by
  rw [List.getD_eq_getElem?_getD, getElem?_copyLines htx hx
    (by rw [dest.length_data, Nat.mul_comm w]; exact Nat.mul_le_mul_right w hty)
    (index_lt hx hy)]
  · split
    · rw [List.getD_eq_getElem?_getD, Nat.add_mul]
      congr 2
      omega
    · rw [List.getD_eq_getElem?_getD]
  · intro hpos
    obtain ⟨n, rfl⟩ := Nat.exists_eq_succ_of_ne_zero (Nat.pos_iff_ne_zero.1 hpos)
    rw [source.length_data, Nat.succ_sub_one]
    calc sy * width + sx + n * width + bw = (sy + n) * width + (sx + bw) := by
          rw [Nat.add_mul]
          omega
      _ ≤ (sy + n + 1) * width := by rw [Nat.succ_mul (sy + n)]; omega
      _ ≤ height * width := Nat.mul_le_mul_right width (by omega)
      _ = width * height := Nat.mul_comm height width

/-- A block of whole lines copied into a context. -/
theorem getD_memcpy {line count x y : Nat} {dest : Context w h} {src : List UInt8}
    (hsrc : src.length = count * w) (hfit : line + count ≤ h) (hx : x < w) (hy : y < h) :
    (memcpy dest.data (line * w) src).getD (y * w + x) 0 =
      if line ≤ y ∧ y < line + count then src.getD ((y - line) * w + x) 0
      else dest.data.getD (y * w + x) 0 := by
  have hwithin : line * w ≤ dest.data.length := by
    rw [dest.length_data, Nat.mul_comm w]
    exact Nat.mul_le_mul_right w (by omega)
  rw [List.getD_eq_getElem?_getD, getElem?_memcpy (index_lt hx hy) hwithin, hsrc, ← Nat.add_mul]
  simp only [mul_le_index hx, index_lt_mul hx]
  split
  · next hthere =>
      have := Nat.mul_le_mul_right w hthere.1
      rw [List.getD_eq_getElem?_getD, Nat.sub_mul]
      congr 2
      omega
  · rw [List.getD_eq_getElem?_getD]

/-! ## Inserting and cutting out -/

/-- What stands at a place after an insertion: the inserted picture's pixel, if it has one
there. -/
theorem getPixel_insert {width height : Nat} {ctx : Context w h}
    {context : Context width height} {ix iy x y : Int} {colour : UInt8}
    (hin : ctx.hasPixel x y) (hsize : iy + height < 65536) :
    (ctx.insert ix iy context).getPixel x y colour =
      context.getPixel (x - ix) (y - iy) (ctx.getPixel x y colour) := by
  obtain ⟨hx0, hx, hy0, hy⟩ := hasPixel_iff.1 hin
  obtain ⟨x, rfl⟩ := Int.eq_ofNat_of_zero_le hx0
  obtain ⟨y, rfl⟩ := Int.eq_ofNat_of_zero_le hy0
  have hx : x < w := by omega
  have hy : y < h := by omega
  rw [getPixel_natCast hx hy, getPixel_natCast hx hy, getPixel, insert]
  split
  · next hwhole =>
      -- whole lines, copied as one block
      obtain ⟨rfl, rfl, hiy, hfit⟩ := hwhole
      obtain ⟨iy, rfl⟩ := Int.eq_ofNat_of_zero_le hiy
      have hblock : (context.data.take (width * height)).length = height * width := by
        rw [List.length_take, context.length_data, Nat.min_self, Nat.mul_comm]
      simp only [← Int.natCast_mul, Int.toNat_natCast]
      rw [getD_memcpy hblock (by omega) hx hy, List.take_of_length_le (Nat.le_of_eq
        context.length_data)]
      by_cases hthere : iy ≤ y ∧ y < iy + height
      · rw [if_pos hthere, if_pos (hasPixel_iff.2 (by omega))]
        congr 1
        rw [show (y : Int) - iy = ((y - iy : Nat) : Int) by omega, Int.sub_zero,
          ← Int.natCast_mul, ← Int.natCast_add, Int.toNat_natCast]
      · rw [if_neg hthere, if_neg fun hp => hthere (by have := hasPixel_iff.1 hp; omega)]
  · split
    · next hnone =>
        have := BoundingBox.intersect_none hnone
        simp only at this
        rw [if_neg fun hp => by have := hasPixel_iff.1 hp; omega]
    · next box hbox =>
        obtain ⟨hbx, hbw, hby, hbh⟩ := BoundingBox.intersect_some hbox
        simp only at hbx hbw hby hbh
        obtain ⟨tx, htx⟩ := Int.eq_ofNat_of_zero_le (a := box.x) (by omega)
        obtain ⟨ty, hty⟩ := Int.eq_ofNat_of_zero_le (a := box.y) (by omega)
        obtain ⟨sx, hsx⟩ := Int.eq_ofNat_of_zero_le (a := box.x - ix) (by omega)
        obtain ⟨sy, hsy⟩ := Int.eq_ofNat_of_zero_le (a := box.y - iy) (by omega)
        simp only [hsx, hsy]
        simp only [htx, hty, ← Int.natCast_mul, ← Int.natCast_add, Int.toNat_natCast]
        rw [getD_copyLines (by omega) (by omega) (by omega) (by omega) hx hy]
        by_cases hthere : ty ≤ y ∧ y < ty + box.h ∧ tx ≤ x ∧ x < tx + box.w
        · rw [if_pos hthere, if_pos (hasPixel_iff.2 (by omega))]
          congr 1
          rw [show (y : Int) - iy = ((sy + (y - ty) : Nat) : Int) by omega,
            show (x : Int) - ix = ((sx + (x - tx) : Nat) : Int) by omega,
            ← Int.natCast_mul, ← Int.natCast_add, Int.toNat_natCast]
        · rw [if_neg hthere, if_neg fun hp => hthere (by have := hasPixel_iff.1 hp; omega)]

/-- What is cut out is the picture behind the rectangle, and the clear colour beside the
picture. -/
theorem getPixel_get {width height : Nat} {ctx : Context w h} {gx gy x y : Int}
    {colour : UInt8} (hin : (ctx.get gx gy width height).hasPixel x y)
    (hsize : gy + height < 65536) :
    (ctx.get gx gy width height).getPixel x y colour =
      ctx.getPixel (gx + x) (gy + y) clearColor := by
  obtain ⟨hx0, hx, hy0, hy⟩ := hasPixel_iff.1 hin
  obtain ⟨x, rfl⟩ := Int.eq_ofNat_of_zero_le hx0
  obtain ⟨y, rfl⟩ := Int.eq_ofNat_of_zero_le hy0
  have hx : x < width := by omega
  have hy : y < height := by omega
  have hclear : (init width height).data.getD (y * width + x) 0 = clearColor := by
    rw [List.getD_eq_getElem _ _ (index_lt hx hy)]
    exact List.getElem_replicate _
  rw [getPixel_natCast hx hy, getPixel, get]
  split
  · next hwhole =>
      obtain ⟨rfl, rfl, hgy, hfit⟩ := hwhole
      obtain ⟨gy, rfl⟩ := Int.eq_ofNat_of_zero_le hgy
      have hlines : gy + height ≤ h := by omega
      have hblock : ((ctx.data.drop (gy * width)).take (width * height)).length =
          height * width := by
        have := Nat.mul_le_mul_right width hlines
        rw [List.length_take, List.length_drop, ctx.length_data, Nat.mul_comm width h,
          Nat.mul_comm width height, Nat.min_eq_left]
        rw [Nat.add_mul] at this
        omega
      have hcopy := @getD_memcpy width height 0 height x y (init width height) _ hblock
        (by omega) hx hy
      rw [Nat.zero_mul, if_pos (by omega), Nat.sub_zero] at hcopy
      simp only [← Int.natCast_mul, Int.toNat_natCast]
      rw [hcopy, if_pos (hasPixel_iff.2 (by omega)), List.getD_eq_getElem?_getD,
        List.getElem?_take_of_lt (by
          rw [Nat.mul_comm width]
          exact (index_lt_mul hx).2 hy), List.getElem?_drop, List.getD_eq_getElem?_getD]
      congr 2
      rw [Int.zero_add, ← Int.natCast_add gy, ← Int.natCast_mul, ← Int.natCast_add,
        Int.toNat_natCast, Nat.add_mul]
      omega
  · split
    · next hnone =>
        have := BoundingBox.intersect_none hnone
        simp only at this
        rw [hclear, if_neg fun hp => by have := hasPixel_iff.1 hp; omega]
    · next box hbox =>
        obtain ⟨hbx, hbw, hby, hbh⟩ := BoundingBox.intersect_some hbox
        simp only at hbx hbw hby hbh
        obtain ⟨sx, hsx⟩ := Int.eq_ofNat_of_zero_le (a := box.x) (by omega)
        obtain ⟨sy, hsy⟩ := Int.eq_ofNat_of_zero_le (a := box.y) (by omega)
        obtain ⟨tx, htx⟩ := Int.eq_ofNat_of_zero_le (a := box.x - gx) (by omega)
        obtain ⟨ty, hty⟩ := Int.eq_ofNat_of_zero_le (a := box.y - gy) (by omega)
        simp only [htx, hty]
        simp only [hsx, hsy, ← Int.natCast_mul, ← Int.natCast_add, Int.toNat_natCast]
        rw [getD_copyLines (by omega) (by omega) (by omega) (by omega) hx hy]
        by_cases hthere : ty ≤ y ∧ y < ty + box.h ∧ tx ≤ x ∧ x < tx + box.w
        · rw [if_pos hthere, if_pos (hasPixel_iff.2 (by omega))]
          congr 1
          rw [show gy + (y : Int) = ((sy + (y - ty) : Nat) : Int) by omega,
            show gx + (x : Int) = ((sx + (x - tx) : Nat) : Int) by omega,
            ← Int.natCast_mul, ← Int.natCast_add, Int.toNat_natCast]
        · rw [if_neg hthere, hclear,
            if_neg fun hp => hthere (by have := hasPixel_iff.1 hp; omega)]

/-- A picture pasted anywhere, inside the context or across its edge, covers the pixels under
it and no other; pasting what was cut out at the same place puts back the rectangle and keeps
all that was drawn beside it. -/
theorem getPixel_pasted (ctx drawn : Context w h) {width height : Nat}
    (context : Context width height) (ix iy x y : Int) (colour : UInt8)
    (hin : drawn.hasPixel x y) (hsize : iy + height < 65536) :
    (drawn.insert ix iy context).getPixel x y colour =
        context.getPixel (x - ix) (y - iy) (drawn.getPixel x y colour) ∧
      (drawn.insert ix iy (ctx.get ix iy width height)).getPixel x y colour =
        if ix ≤ x ∧ x < ix + width ∧ iy ≤ y ∧ y < iy + height then ctx.getPixel x y colour
        else drawn.getPixel x y colour := by
  refine ⟨getPixel_insert hin hsize, ?_⟩
  rw [getPixel_insert hin hsize]
  have hown := hasPixel_iff.1 hin
  split
  · next hthere =>
      have hcut : (ctx.get ix iy width height).hasPixel (x - ix) (y - iy) :=
        hasPixel_iff.2 (by omega)
      rw [getPixel_get hcut hsize, show ix + (x - ix) = x by omega,
        show iy + (y - iy) = y by omega, getPixel, getPixel, if_pos (hasPixel_iff.2 hown),
        if_pos (hasPixel_iff.2 hown)]
  · next hbeside =>
      rw [getPixel.eq_def (ctx.get ix iy width height),
        if_neg fun hp => hbeside (by have := hasPixel_iff.1 hp; omega)]

theorem getPixel_pasted_corner :
    (((init 2 2).insert (-1) (-1) ((init 2 2).fill 3)).getPixel 0 0 0 =
        ((init 2 2).fill 3).getPixel (0 - -1) (0 - -1) ((init 2 2).getPixel 0 0 0)) ∧
      ((init 2 2).insert (-1) (-1) (((init 2 2).fill 3).get (-1) (-1) 2 2)).getPixel 0 0 0 =
        if (-1 : Int) ≤ 0 ∧ (0 : Int) < -1 + (2 : Nat) ∧ (-1 : Int) ≤ 0 ∧
            (0 : Int) < -1 + (2 : Nat) then ((init 2 2).fill 3).getPixel 0 0 0
        else (init 2 2).getPixel 0 0 0 :=
  getPixel_pasted ((init 2 2).fill 3) (init 2 2) ((init 2 2).fill 3) (-1) (-1) 0 0 0
    (by decide) (by decide)

/-! ## Lines that differ -/

/-- The lines of a band, in full width. -/
def lineBox (w : Nat) (b : Block) : BoundingBox := ⟨0, b.addr, w, b.size⟩

theorem mismatch_iff {ctx1 ctx2 : Context w h} {y : Nat} (hw : 8 ∣ w) :
    ctx1.mismatch ctx2 y = true ↔ slot w ctx1.data y ≠ slot w ctx2.data y := by
  have hparts := @slot_eq_iff_parts _ 8 (w / 8) y ctx1.data ctx2.data
  rw [Nat.div_mul_cancel hw] at hparts
  rw [Ne, hparts, mismatch, List.any_eq_true]
  simp only [List.mem_range, decide_eq_true_iff]
  push Not
  exact Iff.rfl

theorem slot_eq_iff_getPixel {ctx1 ctx2 : Context w h} {y : Nat} (hy : y < h) :
    slot w ctx1.data y = slot w ctx2.data y ↔
      ∀ x < w, ctx1.getPixel x y 0 = ctx2.getPixel x y 0 := by
  rw [slot_eq_iff]
  refine forall₂_congr fun x hx => ?_
  rw [getPixel_natCast hx hy, getPixel_natCast hx hy, List.getD_eq_getElem _ _ (index_lt hx hy),
    List.getD_eq_getElem _ _ (index_lt hx hy), List.getElem?_eq_getElem (index_lt hx hy),
    List.getElem?_eq_getElem (index_lt hx hy), Option.some_inj]

/-- The scan after `n` lines. -/
theorem scanned_linesDiffs (ctx1 ctx2 : Context w h) : ∀ {n : Nat}, n ≤ h →
    ∃ (bs : List Block) (opened : Option Nat),
      Scanned (fun y => ctx1.mismatch ctx2 y = true) n bs opened ∧
        ((List.range n).foldl (linesDiffsStep ctx1 ctx2) ([], LRange.inversed h)).1 =
          bs.map (lineBox w) ∧
        ((List.range n).foldl (linesDiffsStep ctx1 ctx2) ([], LRange.inversed h)).2.begin =
          opened.getD h := by
  intro n
  induction n with
  | zero => exact fun _ => ⟨[], none, scanned_zero, rfl, rfl⟩
  | succ n ih =>
      intro hn
      obtain ⟨bs, opened, hscan, hresult, hbegin⟩ := ih (Nat.le_of_succ_le hn)
      rw [List.range_succ, List.foldl_append, List.foldl_cons, List.foldl_nil]
      generalize (List.range n).foldl (linesDiffsStep ctx1 ctx2) ([], LRange.inversed h) = st at *
      obtain ⟨result, rangeY⟩ := st
      cases opened with
      | none =>
          have hbegin : rangeY.begin = h := hbegin
          by_cases hdiff : ctx1.mismatch ctx2 n = true
          · refine ⟨bs, some n, hscan.start hdiff, ?_, ?_⟩
            · simpa [linesDiffsStep, hdiff, hbegin] using hresult
            · simp [linesDiffsStep, hdiff, hbegin]
          · refine ⟨bs, none, hscan.skip hdiff, ?_, ?_⟩
            · simpa [linesDiffsStep, hdiff, hbegin] using hresult
            · simp [linesDiffsStep, hdiff, hbegin]
      | some k =>
          have hk : k < n := hscan.started k rfl
          have hbegin : rangeY.begin = k := hbegin
          have hne : k ≠ h := by omega
          by_cases hdiff : ctx1.mismatch ctx2 n = true
          · refine ⟨bs, some k, hscan.extend hdiff, ?_, ?_⟩
            · simpa [linesDiffsStep, hdiff, hbegin, hne] using hresult
            · simp [linesDiffsStep, hdiff, hbegin, hne]
          · refine ⟨bs ++ [⟨k, n - k⟩], none, hscan.close hdiff, ?_, ?_⟩
            · have hresult : result = bs.map (lineBox w) := hresult
              simp [linesDiffsStep, hdiff, hbegin, hne, hresult, makeBoundingBox, lineBox]
            · simp [linesDiffsStep, hdiff, hbegin, hne, LRange.inversed]

theorem bands_linesDiffs (hw : 8 ∣ w) (ctx1 ctx2 : Context w h) :
    ∃ bs : List Block, ctx1.linesDiffs ctx2 = bs.map (lineBox w) ∧
      Bands (fun y => slot w ctx1.data y ≠ slot w ctx2.data y) h bs := by
  obtain ⟨bs, opened, hscan, hresult, hbegin⟩ :=
    scanned_linesDiffs ctx1 ctx2 (Nat.le_refl h)
  simp only [mismatch_iff hw] at hscan
  rw [linesDiffs]
  generalize (List.range h).foldl (linesDiffsStep ctx1 ctx2) ([], LRange.inversed h) = st at *
  obtain ⟨result, rangeY⟩ := st
  have hresult : result = bs.map (lineBox w) := hresult
  cases opened with
  | none =>
      have hbegin : rangeY.begin = h := hbegin
      exact ⟨bs, by simp [hbegin, hresult], hscan.bands⟩
  | some k =>
      have hbegin : rangeY.begin = k := hbegin
      have hne : k ≠ h := Nat.ne_of_lt (hscan.started k rfl)
      exact ⟨bs ++ [⟨k, h - k⟩],
        by simp [hbegin, hne, hresult, makeBoundingBox, lineBox], hscan.bands_close⟩

/-- The boxes are whole lines, from the top down with an equal line between two of them, and
a line is in one of them exactly when the pictures differ in a pixel of it. -/
theorem linesDiffs_exact (ctx1 ctx2 : Context w h) (hw : 8 ∣ w) :
    (∀ b ∈ ctx1.linesDiffs ctx2, b.x = 0 ∧ b.w = w ∧ 0 ≤ b.y ∧ 0 < b.h ∧ b.y + b.h ≤ h) ∧
      (ctx1.linesDiffs ctx2).Pairwise (fun b c : BoundingBox => b.y + b.h < c.y) ∧
      ∀ y : Nat, y < h → ((∃ b ∈ ctx1.linesDiffs ctx2, b.y ≤ y ∧ (y : Int) < b.y + b.h) ↔
        ∃ x : Nat, x < w ∧ ctx1.getPixel x y 0 ≠ ctx2.getPixel x y 0) := by
  obtain ⟨bs, heq, hbands⟩ := bands_linesDiffs hw ctx1 ctx2
  rw [heq]
  refine ⟨fun b hb => ?_, ?_, fun y hy => ?_⟩
  · obtain ⟨c, hc, rfl⟩ := List.mem_map.1 hb
    have := hbands.within c hc
    refine ⟨rfl, rfl, ?_⟩
    simp only [lineBox, Block.stop] at *
    omega
  · refine List.pairwise_map.2 (hbands.gapped.pairwise.imp fun {b c} hbc => ?_)
    simp only [lineBox, Block.Below, Block.stop] at *
    omega
  · have hholds := hbands.holds y hy
    rw [Ne, slot_eq_iff_getPixel hy] at hholds
    have hboxes : (∃ b ∈ bs.map (lineBox w), b.y ≤ (y : Int) ∧ (y : Int) < b.y + b.h) ↔
        ∃ b ∈ bs, b.Holds y := by
      simp only [List.mem_map, exists_exists_and_eq_and, lineBox, Block.Holds, Block.stop]
      refine exists_congr fun b => and_congr_right fun _ => ?_
      omega
    rw [hboxes, ← hholds]
    simp

theorem linesDiffs_exact_filled :
    (∃ b ∈ (init 8 2).linesDiffs ((init 8 2).fill 3), b.y ≤ (1 : Nat) ∧
        ((1 : Nat) : Int) < b.y + b.h) ↔
      ∃ x : Nat, x < 8 ∧
        (init 8 2).getPixel x (1 : Nat) 0 ≠ ((init 8 2).fill 3).getPixel x (1 : Nat) 0 :=
  (linesDiffs_exact (init 8 2) ((init 8 2).fill 3) (by decide)).2.2 1 (by decide)

end Context

end MuditaOS.Gui

import MuditaOS.Eink.ServiceEink
import MuditaOS.Lib.Run
import MuditaOS.Proofs.PanelPixels

/-!
# The screen shows the last image

The display service sends only the frames that differ from the context it sent before, and
refreshes only what was sent since the last refresh. While it holds a previous context the
panel's memory is that context's picture, and the screen agrees with the memory outside the
area that waits for a refresh; a failed transfer or a change of colours makes it forget the
context and send everything again. So an idle service has brought the last image to the
screen, as a service would that sends and refreshes the whole screen each time.
-/

namespace MuditaOS.Eink

open MuditaOS.Lib MuditaOS.Gui

/-! ## Update frames -/

section

variable {n w t : Nat} {m : Block} {bs : List Block}

/-- The frame of a band of whole lines. -/
def lineFrame (w : Nat) (b : Block) : EinkFrame := ⟨0, b.addr, ⟨w, b.size⟩⟩

@[simp] theorem lines_lineFrame {b : Block} : (lineFrame w b).lines = b := rfl

theorem mergeFrom_map (hn : n < 65536) : ∀ {bs : List Block} {m : Block}, Gapped (m :: bs) →
    (∀ b ∈ m :: bs, b.stop ≤ n) →
    mergeFrom t (Context.lineBox w m) (bs.map (Context.lineBox w)) =
      (closeGaps t m bs).map (Context.lineBox w) := by
  intro bs
  induction bs with
  | nil => intro m _ _; rfl
  | cons b bs ih =>
      intro m h hstop
      obtain ⟨hmb, hrest⟩ := List.isChain_cons_cons.1 h
      have hb := hstop b (by simp)
      have hgap : (((b.addr : Int) - ((m.addr : Int) + (m.size : Int))) % 4294967296 < (t : Int)) ↔
          b.addr - m.stop < t := by
        simp only [Block.Below, Block.stop] at *
        omega
      have hjoin : (((b.addr : Int) + (b.size : Int) - (m.addr : Int)) % 4294967296).toNat =
          b.stop - m.addr := by
        simp only [Block.Below, Block.stop] at *
        omega
      have hend : (⟨m.addr, b.stop - m.addr⟩ : Block).stop = b.stop := by
        simp only [Block.Below, Block.stop] at *
        omega
      rw [List.map_cons, mergeFrom, closeGaps]
      simp only [Context.lineBox, hgap, hjoin]
      split
      · refine ih (m := ⟨m.addr, b.stop - m.addr⟩) (gapped_cons hrest.tail fun c hc => ?_)
          fun c hc => ?_
        · have := (List.isChain_cons.1 hrest).1 c hc
          rwa [Block.Below, hend]
        · rcases List.mem_cons.1 hc with rfl | hc
          · rwa [hend]
          · exact hstop c (by simp [hc])
      · rw [List.map_cons]
        exact congrArg _ (ih hrest fun c hc => hstop c (List.mem_cons_of_mem _ hc))

theorem makeAlignedFrames_map (hw : w < 65536) (hn : n < 65536) (h8 : 8 ∣ n)
    (hstop : ∀ b ∈ bs, b.stop ≤ n) :
    makeAlignedFrames (bs.map (Context.lineBox w)) 8 = (bs.map (widen 8)).map (lineFrame w) := by
  rw [makeAlignedFrames, List.map_map, List.map_map]
  refine List.map_congr_left fun b hb => ?_
  have hle := hstop b hb
  have hround := stop_widen_le (by decide : 0 < 8) h8 hle
  have haddr : uint16 (b.addr : Int) = b.addr := by
    simp only [Block.stop] at hle
    simp only [uint16]
    omega
  have hsize : uint16 (b.size : Int) = b.size := by
    simp only [Block.stop] at hle
    simp only [uint16]
    omega
  have hwidth : uint16 (w : Int) = w := by
    simp only [uint16]
    omega
  simp only [Function.comp, Context.lineBox, haddr, hsize, hwidth, lineFrame, widen]
  simp only [Block.stop, widen] at hround
  rw [Nat.mod_eq_of_lt (by omega)]
  rfl

end

/-- The frames lie on the screen and on the grid of the transfer, in order, and hold every line
that differs. -/
structure Board.Updates (board : Board) (differs : Nat → Prop) (frames : List EinkFrame) :
    Prop where
  fits : ∀ frame ∈ frames, board.Fits frame ∧ 8 ∣ frame.pos_y ∧ 8 ∣ frame.size.height
  descending : Descending (frames.map EinkFrame.lines)
  few : frames.length ≤ 4
  covers : ∀ y < board.resY, differs y → ∃ frame ∈ frames, frame.lines.Holds y

theorem updates_calculateUpdateFrames {board : Board}
    (context previousContext : Context board.resX board.resY) :
    board.Updates (fun y => slot board.resX context.data y ≠
      slot board.resX previousContext.data y) (calculateUpdateFrames context previousContext) := by
  obtain ⟨bs, hboxes, hbands⟩ :=
    Context.bands_linesDiffs board.alignedX context previousContext
  rw [calculateUpdateFrames, hboxes]
  cases bs with
  | nil =>
      exact ⟨by simp [mergeBoundingBoxes, makeAlignedFrames],
        by simp [mergeBoundingBoxes, makeAlignedFrames],
        by simp [mergeBoundingBoxes, makeAlignedFrames],
        fun y hy hdiff => absurd ((hbands.holds y hy).1 hdiff) (by simp)⟩
  | cons m bs =>
      obtain ⟨hgapped, -, hholds, hstops⟩ :=
        closeGaps_spec (t := board.resY / 4) hbands.gapped
      have hwithin : ∀ c ∈ closeGaps (board.resY / 4) m bs, c.stop ≤ board.resY := fun c hc => by
        obtain ⟨b, hb, hcb⟩ := hstops c hc
        rw [hcb]
        exact (hbands.within b hb).2
      have hframes : makeAlignedFrames (mergeBoundingBoxes
          ((m :: bs).map (Context.lineBox board.resX)) (board.resY / 4)) 8 =
          ((closeGaps (board.resY / 4) m bs).map (widen 8)).map (lineFrame board.resX) := by
        rw [List.map_cons, mergeBoundingBoxes,
          mergeFrom_map board.boundY hbands.gapped fun b hb => (hbands.within b hb).2,
          makeAlignedFrames_map board.boundX board.boundY board.alignedY hwithin]
      rw [hframes]
      refine ⟨fun frame hframe => ?_, ?_, ?_, fun y hy hdiff => ?_⟩
      · rw [List.map_map] at hframe
        obtain ⟨c, hc, rfl⟩ := List.mem_map.1 hframe
        exact ⟨⟨rfl, rfl, stop_widen_le (by decide) board.alignedY (hwithin c hc)⟩,
          Nat.dvd_mul_left 8 _, Nat.dvd_mul_left 8 _⟩
      · have hlines : EinkFrame.lines ∘ lineFrame board.resX = id := rfl
        rw [List.map_map, hlines, List.map_id]
        exact hgapped.descending.widen (by decide)
      · obtain ⟨hfar, hsizes⟩ := closeGaps_farApart (t := board.resY / 4) hbands.gapped
          fun b hb => (hbands.within b hb).1
        rw [List.length_map, List.length_map]
        rcases hlist : closeGaps (board.resY / 4) m bs with _ | ⟨c, cs⟩
        · simp
        · rw [hlist] at hfar hsizes hwithin
          have hlen := hfar.length_le (fun b hb => ⟨hsizes b hb, hwithin b hb⟩) c rfl
          obtain ⟨q, hq⟩ := board.alignedY
          have hmul : (c :: cs).length * (board.resY / 4 + 1) ≤ 5 * (board.resY / 4) := by omega
          have hlt : (c :: cs).length * (board.resY / 4 + 1) < 5 * (board.resY / 4 + 1) := by omega
          exact Nat.le_of_lt_succ (Nat.lt_of_mul_lt_mul_right hlt)
      · obtain ⟨b, hb, hby⟩ := (hbands.holds y hy).1 hdiff
        obtain ⟨c, hc, hcy⟩ := hholds b hb y hby
        exact ⟨lineFrame board.resX (widen 8 c),
          List.mem_map_of_mem (List.mem_map_of_mem hc), holds_widen (by decide) hcy⟩

section

variable {w h : Nat}

theorem memcpy_whole {dest src : List UInt8} (hlen : src.length = dest.length) :
    memcpy dest 0 src = src := by
  rw [memcpy, patch, List.take_zero, List.nil_append, Nat.zero_add, hlen, List.drop_length,
    List.append_nil, ← hlen, List.take_length]

/-- Copying a context of the same size is copying it whole. -/
theorem insert_whole {ctx previous : Context w h} : previous.insert 0 0 ctx = ctx := by
  have hfast : (0 : Int) = 0 ∧ w = w ∧ (0 : Int) ≤ 0 ∧ ((0 : Int) + h) % 65536 ≤ h := by
    refine ⟨rfl, rfl, Int.le_refl 0, ?_⟩
    omega
  refine Context.ext ?_
  rw [Context.insert, if_pos hfast]
  show memcpy previous.data ((0 : Int) * w).toNat _ = _
  rw [Int.zero_mul, Int.toNat_zero, List.take_of_length_le (Nat.le_of_eq ctx.length_data),
    memcpy_whole (by rw [ctx.length_data, previous.length_data])]

theorem get_whole {ctx : Context w h} : ctx.get 0 0 w h = ctx := by
  have hfast : (0 : Int) = 0 ∧ w = w ∧ (0 : Int) ≤ 0 ∧ ((0 : Int) + h) % 65536 ≤ h := by
    refine ⟨rfl, rfl, Int.le_refl 0, ?_⟩
    omega
  refine Context.ext ?_
  rw [Context.get, if_pos hfast]
  show memcpy _ 0 ((ctx.data.drop ((0 : Int) * w).toNat).take (w * h)) = _
  rw [Int.zero_mul, Int.toNat_zero, List.drop_zero,
    List.take_of_length_le (Nat.le_of_eq ctx.length_data),
    memcpy_whole (by rw [ctx.length_data, Context.length_data])]

end

section

variable {controller : Controller} {board : Board} {s : ServiceEink controller board}
  {ctx : Context board.resX board.resY} {refreshMode : EinkRefreshMode} {y : Nat}

theorem fits_whole : board.Fits board.whole where
  pos_x := rfl
  width := rfl
  stop := by simp [Board.whole, EinkFrame.lines, Block.stop]

theorem holds_whole (hy : y < board.resY) : board.whole.lines.Holds y := by
  simp only [Board.whole, EinkFrame.lines, Block.Holds, Block.stop]
  omega

/-- The planned frames hold what differs from the previous context, and the refresh frame
holds them. -/
structure ServiceEink.Planned (s : ServiceEink controller board)
    (ctx : Context board.resX board.resY) (plan : Plan board) : Prop where
  previousContext : plan.previousContext = ctx
  fits : ∀ frame ∈ plan.updateFrames, board.Fits frame ∧ 8 ∣ frame.size.height
  refreshFits : board.Fits plan.refreshFrame
  refreshes : ∀ frame ∈ plan.updateFrames, ∀ y, frame.lines.Holds y →
    plan.refreshFrame.lines.Holds y
  required : plan.isRefreshRequired = false → plan.updateFrames = []
  covers : ∀ y < board.resY, (∃ frame ∈ plan.updateFrames, frame.lines.Holds y) ∨
    ∃ c, s.previousContext = some c ∧ slot board.resX ctx.data y = slot board.resX c.data y

/-- Frames in order lie between the first one's top and the last one's end. -/
theorem fits_hull {front : EinkFrame} {frames : List EinkFrame}
    (hfits : ∀ frame ∈ front :: frames, board.Fits frame)
    (horder : Descending ((front :: frames).map EinkFrame.lines)) :
    let back := (front :: frames).getLast (List.cons_ne_nil front frames)
    let hull : EinkFrame :=
      { front with size.height := back.pos_y + back.size.height - front.pos_y }
    board.Fits hull ∧ ∀ frame ∈ front :: frames, ∀ y, frame.lines.Holds y →
      hull.lines.Holds y := by
  intro back hull
  have hback := hfits back (List.getLast_mem _)
  have hfront := hfits front List.mem_cons_self
  have hne : (front :: frames).map EinkFrame.lines ≠ [] := by simp
  have hlast : ((front :: frames).map EinkFrame.lines).getLast hne = back.lines :=
    List.getLast_map (f := EinkFrame.lines) hne
  have hbounds : ∀ frame ∈ front :: frames,
      front.pos_y ≤ frame.pos_y ∧ frame.lines.stop ≤ back.lines.stop := fun frame hframe => by
    have := horder.bounds hne frame.lines (List.mem_map_of_mem hframe)
    rw [hlast] at this
    exact this
  have hstop := (hbounds front List.mem_cons_self).2
  have hfrontBack := (hbounds back (List.getLast_mem _)).1
  have hhull : hull.lines.stop = back.lines.stop := by
    simp only [hull, EinkFrame.lines, Block.stop] at *
    omega
  refine ⟨⟨hfront.pos_x, hfront.width, hhull ▸ hback.stop⟩, fun frame hframe y hy => ?_⟩
  obtain ⟨htop, hend⟩ := hbounds frame hframe
  exact ⟨Nat.le_trans htop hy.1, hhull ▸ Nat.lt_of_lt_of_le hy.2 hend⟩

theorem planned_plan : s.Planned ctx (s.plan ctx refreshMode) := by
  rw [ServiceEink.plan]
  cases hprevious : s.previousContext with
  | none =>
      exact ⟨get_whole, by simpa using ⟨fits_whole, board.alignedY⟩, fits_whole,
        by simp, by simp, fun y hy => .inl ⟨_, List.mem_singleton.2 rfl, holds_whole hy⟩⟩
  | some c =>
      have hupdates := updates_calculateUpdateFrames ctx c
      have hcovers : ∀ y < board.resY,
          (∃ frame ∈ calculateUpdateFrames ctx c, frame.lines.Holds y) ∨
            ∃ d, some c = some d ∧ slot board.resX ctx.data y = slot board.resX d.data y :=
        fun y hy => by
          by_cases heq : slot board.resX ctx.data y = slot board.resX c.data y
          · exact .inr ⟨c, rfl, heq⟩
          · exact .inl (hupdates.covers y hy heq)
      have hfits : ∀ frame ∈ calculateUpdateFrames ctx c,
          board.Fits frame ∧ 8 ∣ frame.size.height := fun frame hframe =>
        ⟨(hupdates.fits frame hframe).1, (hupdates.fits frame hframe).2.2⟩
      simp only
      split
      · exact ⟨insert_whole, hfits, fits_whole, fun frame hframe y hy =>
          holds_whole (Nat.lt_of_lt_of_le hy.2 (hfits frame hframe).1.stop), by simp,
          by rwa [hprevious]⟩
      · rcases hframes : calculateUpdateFrames ctx c with _ | ⟨front, frames⟩
        · rw [hframes] at hcovers
          refine ⟨?_, by simp, fits_whole, by simp, fun _ => rfl, by rwa [hprevious]⟩
          -- no line differs, so the previous context is the new one
          refine Context.ext_getPixel fun x y hx hy => ?_
          obtain ⟨frame, hframe, -⟩ | ⟨d, hd, heq⟩ := hcovers y hy
          · cases hframe
          · cases hd
            exact ((Context.slot_eq_iff_getPixel hy).1 heq x hx).symm
        · rw [hframes] at hcovers hfits hupdates
          obtain ⟨hhullFits, hhullHolds⟩ :=
            fits_hull (fun frame hframe => (hfits frame hframe).1) hupdates.descending
          refine ⟨insert_whole, hfits, ?_, fun frame hframe y hy => ?_, by simp,
            by rwa [hprevious]⟩
          · show board.Fits (if _ then _ else _)
            split
            · exact hhullFits
            · exact fits_whole
          · show (if _ then _ else _ : EinkFrame).lines.Holds y
            split
            · exact hhullHolds frame hframe y hy
            · exact holds_whole (Nat.lt_of_lt_of_le hy.2 (hfits frame hframe).1.stop)

/-! ## The invariant -/

/-- Line `y` waits for a refresh. -/
def ServiceEink.Due (s : ServiceEink controller board) (y : Nat) : Prop :=
  s.isRefreshFramesSumValid = true ∧ s.refreshFramesSum.lines.Holds y

structure ServiceEink.Inv (s : ServiceEink controller board) : Prop where
  idle : s.einkDisplayState = .idle ↔ s.isRefreshFramesSumValid = false
  fits : s.isRefreshFramesSumValid = true → board.Fits s.refreshFramesSum
  colours : ∀ c, s.previousContext = some c → ∀ pixel ∈ c.data, pixel < 16
  stored : ∀ c, s.previousContext = some c → ∀ x < board.resX, ∀ y < board.resY,
    board.stored s.panel x y = shade s.displayMode (c.getPixel x y 0)
  shown : ∀ c, s.previousContext = some c → ∀ x < board.resX, ∀ y < board.resY,
    s.Due y ∨ board.shown s.panel x y = board.stored s.panel x y

namespace ServiceEink

theorem inv_init {panel : controller.State} {displayMode : EinkDisplayColorMode} :
    (init panel displayMode : ServiceEink controller board).Inv where
  idle := by simp [init]
  fits := by simp [init]
  colours := by simp [init]
  stored := by simp [init]
  shown := by simp [init]

/-- A service that has forgotten its context promises nothing about the panel. -/
theorem inv_forgotten (hnone : s.previousContext = none)
    (hidle : s.einkDisplayState = .idle ↔ s.isRefreshFramesSumValid = false)
    (hfits : s.isRefreshFramesSumValid = true → board.Fits s.refreshFramesSum) : s.Inv where
  idle := hidle
  fits := hfits
  colours := by simp [hnone]
  stored := by simp [hnone]
  shown := by simp [hnone]

theorem inv_setDisplayMode {mode : EinkDisplayColorMode} (h : s.Inv) :
    (s.setDisplayMode mode).Inv :=
  inv_forgotten rfl h.idle h.fits

/-! ### Gathering refreshes -/

theorem fits_expandFrame {frame other : EinkFrame} (h : board.Fits frame)
    (h' : board.Fits other) : board.Fits (expandFrame frame other) := by
  obtain ⟨hpos, hwidth, hstop⟩ := h
  obtain ⟨hpos', hwidth', hstop'⟩ := h'
  simp only [EinkFrame.lines, Block.stop] at hstop hstop'
  refine ⟨by simp [expandFrame, hpos], by simp [expandFrame, hpos, hpos', hwidth, hwidth'], ?_⟩
  simp only [expandFrame, EinkFrame.lines, Block.stop]
  omega

theorem holds_expandFrame {frame other : EinkFrame}
    (h : frame.lines.Holds y ∨ other.lines.Holds y) :
    (expandFrame frame other).lines.Holds y := by
  simp only [expandFrame, EinkFrame.lines, Block.Holds, Block.stop] at *
  omega

theorem fits_sumUp {refreshFrame : EinkFrame} (h : board.Fits refreshFrame)
    (hsum : s.isRefreshFramesSumValid = true → board.Fits s.refreshFramesSum) :
    board.Fits (s.sumUp refreshFrame refreshMode).refreshFramesSum := by
  show board.Fits (if _ then _ else _)
  split
  · next hvalid => exact fits_expandFrame (hsum hvalid) h
  · exact h

theorem due_sumUp {refreshFrame : EinkFrame} (h : s.Due y ∨ refreshFrame.lines.Holds y) :
    (s.sumUp refreshFrame refreshMode).Due y := by
  refine ⟨rfl, ?_⟩
  show (if _ then _ else _ : EinkFrame).lines.Holds y
  split
  · exact holds_expandFrame (h.imp_left And.right)
  · next hvalid =>
      rcases h with hdue | hframe
      · exact absurd hdue.1 hvalid
      · exact hframe

/-! ### Images -/

theorem framesToSend_eq_nil {updateFrames : List EinkFrame} :
    s.framesToSend updateFrames = [] ↔ updateFrames = [] := by
  unfold framesToSend
  split <;> simp

/-- Sending the whole screen for the first frame loses none of its lines. -/
theorem mem_framesToSend {updateFrames : List EinkFrame}
    (hfits : ∀ frame ∈ updateFrames, board.Fits frame ∧ 8 ∣ frame.size.height) :
    (∀ frame ∈ s.framesToSend updateFrames, board.Fits frame ∧ 8 ∣ frame.size.height) ∧
      ∀ y, (∃ frame ∈ updateFrames, frame.lines.Holds y) →
        ∃ frame ∈ s.framesToSend updateFrames, frame.lines.Holds y := by
  unfold framesToSend
  split
  · next front frames _ =>
      refine ⟨fun frame hframe => ?_, fun y hy => ?_⟩
      · rcases List.mem_cons.1 hframe with rfl | hframe
        · exact ⟨fits_whole, board.alignedY⟩
        · exact hfits frame (List.mem_cons_of_mem _ hframe)
      · obtain ⟨frame, hframe, hholds⟩ := hy
        exact ⟨_, List.mem_cons_self,
          holds_whole (Nat.lt_of_lt_of_le hholds.2 (hfits frame hframe).1.stop)⟩
  · exact ⟨hfits, fun _ hy => hy⟩

/-- What the service holds between the transfers and the sums: the lines of `frames` were sent
and are still to be added. -/
structure Transferred (s : ServiceEink controller board) (frames : List EinkFrame) : Prop where
  colours : ∀ c, s.previousContext = some c → ∀ pixel ∈ c.data, pixel < 16
  stored : ∀ c, s.previousContext = some c → ∀ x < board.resX, ∀ y < board.resY,
    board.stored s.panel x y = shade s.displayMode (c.getPixel x y 0)
  shown : ∀ c, s.previousContext = some c → ∀ x < board.resX, ∀ y < board.resY,
    s.Due y ∨ (∃ frame ∈ frames, frame.lines.Holds y) ∨
      board.shown s.panel x y = board.stored s.panel x y

theorem transferred_updateImage {picture : Picture board} {plan : Plan board}
    {status : EinkStatus controller} (h : s.Inv) (hplan : s.Planned picture.context plan) :
    (s.updateImage picture.context plan refreshMode status).1.Transferred plan.updateFrames := by
  have hpixels : ∀ index, picture.context.data.getD index 0 < 16 :=
    getD_lt_of_forall picture.colours
  have hsame : ∀ c, s.previousContext = some c → ∀ y < board.resY,
      slot board.resX picture.context.data y = slot board.resX c.data y →
      ∀ x < board.resX, picture.context.getPixel x y 0 = c.getPixel x y 0 := fun c _ y hy heq =>
    (Context.slot_eq_iff_getPixel hy).1 heq
  unfold updateImage
  split
  · next hnil =>
      -- nothing to send: the whole picture is the previous one
      have hframes := framesToSend_eq_nil.1 hnil
      have hcovers : ∀ y < board.resY, ∃ c, s.previousContext = some c ∧
          slot board.resX picture.context.data y = slot board.resX c.data y := fun y hy => by
        rcases hplan.covers y hy with ⟨frame, hframe, -⟩ | hc
        · rw [hframes] at hframe
          cases hframe
        · exact hc
      refine ⟨fun c hc => ?_, fun c hc x hx y hy => ?_, fun c hc x hx y hy => ?_⟩
      · cases hc
        rw [hplan.previousContext]
        exact picture.colours
      · cases hc
        obtain ⟨d, hd, heq⟩ := hcovers y hy
        rw [hplan.previousContext, hsame d hd y hy heq x hx]
        exact h.stored d hd x hx y hy
      · obtain ⟨d, hd, -⟩ := hcovers y hy
        exact (h.shown d hd x hx y hy).imp_right .inr
  · obtain ⟨hfits, hholds⟩ := s.mem_framesToSend hplan.fits
    have hstored : ∀ x < board.resX, ∀ y < board.resY,
        board.stored (showImageUpdate board (s.framesToSend plan.updateFrames)
          picture.context.data s.displayMode s.panel) x y =
            shade s.displayMode (picture.context.getPixel x y 0) := fun x hx y hy => by
      rw [stored_showImageUpdate hpixels hx hy hfits, ← Context.getPixel_natCast hx hy]
      split
      · rfl
      · next hout =>
          obtain hin | ⟨c, hc, heq⟩ := hplan.covers y hy
          · exact absurd (hholds y hin) hout
          · rw [hsame c hc y hy heq x hx]
            exact h.stored c hc x hx y hy
    refine ⟨fun c hc => ?_, fun c hc x hx y hy => ?_, fun c hc x hx y hy => ?_⟩
    · cases hc
      rw [hplan.previousContext]
      exact picture.colours
    · cases hc
      rw [hplan.previousContext]
      exact hstored x hx y hy
    · obtain hin | ⟨d, hd, heq⟩ := hplan.covers y hy
      · exact .inr (.inl hin)
      · -- an unchanged line: what the screen shows there was stored before and still is
        refine (h.shown d hd x hx y hy).imp_right fun hshown => .inr ?_
        show board.shown (showImageUpdate board _ _ _ _) x y = _
        rw [hstored x hx y hy, Board.shown, screen_showImageUpdate, hsame d hd y hy heq x hx,
          ← h.stored d hd x hx y hy]
        exact hshown
  · exact ⟨by simp, by simp, by simp⟩

/-- The transfers leave the sums and the state alone. -/
theorem updateImage_frame {ctx : Context board.resX board.resY} {plan : Plan board}
    {status : EinkStatus controller} :
    let s' := (s.updateImage ctx plan refreshMode status).1
    s'.isRefreshFramesSumValid = s.isRefreshFramesSumValid ∧
      s'.refreshFramesSum = s.refreshFramesSum ∧ s'.einkDisplayState = s.einkDisplayState ∧
      s'.displayMode = s.displayMode ∧ s'.currentState = s.currentState := by
  unfold updateImage
  split <;> exact ⟨rfl, rfl, rfl, rfl, rfl⟩

theorem Transferred.inv_sumUp {frames : List EinkFrame} {refreshFrame : EinkFrame}
    (h : s.Transferred frames) (hfits : board.Fits refreshFrame)
    (hrefreshes : ∀ frame ∈ frames, ∀ y, frame.lines.Holds y → refreshFrame.lines.Holds y)
    (hsum : s.isRefreshFramesSumValid = true → board.Fits s.refreshFramesSum) :
    (s.sumUp refreshFrame refreshMode).Inv where
  idle := by simp [sumUp]
  fits _ := fits_sumUp hfits hsum
  colours := h.colours
  stored := h.stored
  shown c hc x hx y hy := by
    rcases h.shown c hc x hx y hy with hdue | ⟨frame, hframe, hy'⟩ | hshown
    · exact .inl (due_sumUp (.inl hdue))
    · exact .inl (due_sumUp (.inr (hrefreshes frame hframe y hy')))
    · exact .inr hshown

theorem inv_handleImageMessage {contextId : Int} {picture : Picture board}
    {guiRefreshMode : RefreshModes} {sender : String} {status : EinkStatus controller}
    (h : s.Inv) :
    (s.handleImageMessage contextId picture.context guiRefreshMode sender status).1.Inv := by
  unfold handleImageMessage
  split
  · exact h
  · dsimp only
    generalize translateToEinkRefreshMode guiRefreshMode = refreshMode
    have hplan := @planned_plan _ _ s picture.context refreshMode
    generalize s.plan picture.context refreshMode = plan at hplan
    have hsent := @transferred_updateImage _ _ s refreshMode picture plan status h hplan
    obtain ⟨hvalid, hsum, -, -, -⟩ :=
      @updateImage_frame _ _ s refreshMode picture.context plan status
    generalize s.updateImage picture.context plan refreshMode status = result at *
    obtain ⟨s', refreshMode', isImageUpdated⟩ := result
    have hfits : s'.isRefreshFramesSumValid = true → board.Fits s'.refreshFramesSum := by
      intro hv
      rw [hsum]
      exact h.fits (hvalid ▸ hv)
    simp only
    split
    · exact Transferred.inv_sumUp (s := { s' with previousRefreshMode := refreshMode' })
        ⟨hsent.colours, hsent.stored, hsent.shown⟩ hplan.refreshFits hplan.refreshes hfits
    · next hnot =>
        -- nothing was sent and nothing waits: the screen shows what the memory holds
        simp only [not_or, Bool.not_eq_true] at hnot
        obtain ⟨-, hrequired, hinvalid⟩ := hnot
        refine ⟨by simpa using hinvalid, fun hv => absurd hv (by simp [hinvalid]),
          hsent.colours, hsent.stored, fun c hc x hx y hy => ?_⟩
        rcases hsent.shown c hc x hx y hy with hdue | ⟨frame, hframe, -⟩ | hshown
        · exact .inl hdue
        · rw [hplan.required hrequired] at hframe
          cases hframe
        · exact .inr hshown

/-! ### Refreshes -/

theorem inv_refresh {status : EinkStatus controller} (h : s.Inv)
    (hneed : s.einkDisplayState = .needRefresh) : (s.refresh status).Inv := by
  have hvalid : s.isRefreshFramesSumValid = true := by
    have := h.idle
    rw [hneed] at this
    simpa using this
  have hfits := h.fits hvalid
  have hshown : ∀ (refreshMode : EinkRefreshMode) c, s.previousContext = some c →
      ∀ x < board.resX, ∀ y < board.resY,
        board.shown (showImageRefresh board s.refreshFramesSum refreshMode s.panel) x y =
          board.stored (showImageRefresh board s.refreshFramesSum refreshMode s.panel) x y := by
    intro refreshMode c hc x hx y hy
    rw [shown_showImageRefresh hfits hx hy, stored_showImageRefresh]
    split
    · rfl
    · next hout => exact (h.shown c hc x hx y hy).resolve_left fun hdue => hout hdue.2
  unfold refresh
  cases status with
  | error panel =>
      cases s.previousRefreshStatus <;>
        exact inv_forgotten rfl ⟨fun _ => rfl, fun _ => rfl⟩ (by simp)
  | einkOK =>
      cases s.previousRefreshStatus with
      | success =>
          exact ⟨⟨fun _ => rfl, fun _ => rfl⟩, by simp, h.colours,
            fun c hc x hx y hy => stored_showImageRefresh.trans (h.stored c hc x hx y hy),
            fun c hc x hx y hy => .inr (hshown _ c hc x hx y hy)⟩
      | failed =>
          exact ⟨⟨fun _ => rfl, fun _ => rfl⟩, by simp, h.colours,
            fun c hc x hx y hy => stored_showImageRefresh.trans (h.stored c hc x hx y hy),
            fun c hc x hx y hy => .inr (hshown _ c hc x hx y hy)⟩

theorem inv_handleRefreshMessage {message : RefreshMessage} {status : EinkStatus controller}
    (h : s.Inv) : (s.handleRefreshMessage message status).1.Inv := by
  unfold handleRefreshMessage
  split
  · next hneed => exact inv_refresh h hneed
  · exact h

theorem inv_handleCancelRefreshMessage (h : s.Inv) : s.handleCancelRefreshMessage.Inv := by
  unfold handleCancelRefreshMessage
  split
  · next hneed =>
      have hidle := h.idle
      rw [hneed] at hidle
      exact ⟨by simpa using hidle, h.fits, h.colours, h.stored, h.shown⟩
  · exact h

theorem inv_handlePrepareEarlyRequest {guiRefreshMode : RefreshModes} {prepared : Bool}
    (h : s.Inv) : (s.handlePrepareEarlyRequest guiRefreshMode prepared).Inv := by
  unfold handlePrepareEarlyRequest
  split
  · refine ⟨h.idle, h.fits, h.colours, fun c hc x hx y hy => ?_, fun c hc x hx y hy => ?_⟩
    · show controller.memory (controller.prepare _ _) _ _ = _
      rw [controller.memory_prepare]
      exact h.stored c hc x hx y hy
    · refine (h.shown c hc x hx y hy).imp_right fun hshown => ?_
      show controller.screen (controller.prepare _ _) _ _ =
        controller.memory (controller.prepare _ _) _ _
      rw [controller.memory_prepare, controller.screen_prepare]
      exact hshown
  · exact h

theorem inv_switchPowerModeHandler {mode : ServicePowerMode} (h : s.Inv) :
    (s.switchPowerModeHandler mode).Inv := by
  unfold switchPowerModeHandler
  split <;> exact ⟨h.idle, h.fits, h.colours, h.stored, h.shown⟩

theorem inv_step {event : Event controller board} (h : s.Inv) : (s.step event).Inv := by
  cases event with
  | image contextId picture refreshMode sender status => exact inv_handleImageMessage h
  | refresh message status => exact inv_handleRefreshMessage h
  | cancelRefresh => exact inv_handleCancelRefreshMessage h
  | einkMode mode => exact inv_setDisplayMode h
  | prepareEarly refreshMode prepared => exact inv_handlePrepareEarlyRequest h
  | switchPowerMode mode => exact inv_switchPowerModeHandler h

theorem inv_run {events : List (Event controller board)} (h : s.Inv) :
    (events.foldl step s).Inv := by
  have hstep : ∀ (s : ServiceEink controller board) (event : Event controller board),
      s.Inv → (s.step event).Inv := fun _ _ => inv_step
  exact (everyStep_of_inv (Q := fun _ _ => True) (fun _ _ _ => trivial) hstep h).2

end ServiceEink

/-! ## Runs -/

/-- Neither an image nor a change of colours, nor a transfer that fails. -/
def Event.Quiet : Event controller board → Prop
  | .refresh _ .einkOK | .cancelRefresh | .prepareEarly _ _ | .switchPowerMode _ => True
  | _ => False

namespace ServiceEink

/-- A quiet message leaves the picture that is to be shown as it is. -/
theorem quiet_step {event : Event controller board} (hquiet : event.Quiet) :
    (s.step event).previousContext = s.previousContext ∧
      (s.step event).displayMode = s.displayMode := by
  cases event with
  | image contextId picture refreshMode sender status => exact hquiet.elim
  | einkMode mode => exact hquiet.elim
  | cancelRefresh =>
      simp only [step, handle, handleCancelRefreshMessage]
      split <;> exact ⟨rfl, rfl⟩
  | prepareEarly refreshMode prepared =>
      simp only [step, handle, handlePrepareEarlyRequest]
      split <;> exact ⟨rfl, rfl⟩
  | switchPowerMode mode =>
      simp only [step, handle, switchPowerModeHandler]
      split <;> exact ⟨rfl, rfl⟩
  | refresh message status =>
      cases status with
      | error panel => exact hquiet.elim
      | einkOK =>
          simp only [step, handle, handleRefreshMessage, refresh]
          split
          · cases s.previousRefreshStatus <;> exact ⟨rfl, rfl⟩
          · exact ⟨rfl, rfl⟩

theorem quiet_run : ∀ {events : List (Event controller board)}
    {s : ServiceEink controller board}, (∀ event ∈ events, event.Quiet) →
    (events.foldl step s).previousContext = s.previousContext ∧
      (events.foldl step s).displayMode = s.displayMode := by
  intro events
  induction events with
  | nil => intro s _; exact ⟨rfl, rfl⟩
  | cons event events ih =>
      intro s hquiet
      obtain ⟨hcontext, hmode⟩ := quiet_step (s := s) (hquiet event List.mem_cons_self)
      obtain ⟨hcontext', hmode'⟩ :=
        ih (s := s.step event) fun e he => hquiet e (List.mem_cons_of_mem _ he)
      exact ⟨hcontext'.trans hcontext, hmode'.trans hmode⟩

/-- A running service takes over the image whose transfers succeed. -/
theorem step_image (hrunning : s.currentState = .running) {contextId : Int}
    {picture : Picture board} {guiRefreshMode : RefreshModes} {sender : String} :
    (s.step (.image contextId picture guiRefreshMode sender .einkOK)).previousContext =
        some picture.context ∧
      (s.step (.image contextId picture guiRefreshMode sender .einkOK)).displayMode =
        s.displayMode := by
  show (s.handleImageMessage contextId picture.context guiRefreshMode sender
    .einkOK).1.previousContext = _ ∧ (s.handleImageMessage contextId picture.context
      guiRefreshMode sender .einkOK).1.displayMode = _
  have hplan := @planned_plan _ _ s picture.context (translateToEinkRefreshMode guiRefreshMode)
  unfold handleImageMessage
  rw [hrunning]
  dsimp only
  generalize s.plan picture.context (translateToEinkRefreshMode guiRefreshMode) = plan at *
  have hupdate : (s.updateImage picture.context plan (translateToEinkRefreshMode guiRefreshMode)
      .einkOK).1.previousContext = some picture.context := by
    unfold updateImage
    split <;> simp_all [hplan.previousContext]
  have hmode := (@updateImage_frame _ _ s (translateToEinkRefreshMode guiRefreshMode)
    picture.context plan .einkOK).2.2.2.1
  split <;> exact ⟨hupdate, hmode⟩

/-- An image leaves a running service idle or waiting for its own message. -/
theorem step_image_state (hrunning : s.currentState = .running) {contextId : Int}
    {picture : Picture board} {guiRefreshMode : RefreshModes} {sender : String}
    {status : EinkStatus controller} :
    (s.step (.image contextId picture guiRefreshMode sender status)).einkDisplayState ≠
      .canceled := by
  simp only [step, handle, handleImageMessage, hrunning]
  split
  · simp [sumUp]
  · simp

theorem quiet_idle {event : Event controller board} (hquiet : event.Quiet)
    (hidle : s.einkDisplayState = .idle) : (s.step event).einkDisplayState = .idle := by
  cases event with
  | image contextId picture refreshMode sender status => exact hquiet.elim
  | einkMode mode => exact hquiet.elim
  | cancelRefresh => simp [step, handle, handleCancelRefreshMessage, hidle]
  | prepareEarly refreshMode prepared =>
      simp only [step, handle, handlePrepareEarlyRequest]
      split <;> exact hidle
  | switchPowerMode mode =>
      simp only [step, handle, switchPowerModeHandler]
      split <;> exact hidle
  | refresh message status => simp [step, handle, handleRefreshMessage, hidle]

theorem step_refresh {message : RefreshMessage} {status : EinkStatus controller}
    (hstate : s.einkDisplayState ≠ .canceled) :
    (s.step (.refresh message status)).einkDisplayState = .idle := by
  simp only [step, handle, handleRefreshMessage]
  split
  · rfl
  · next hneed =>
      cases h : s.einkDisplayState with
      | idle => rfl
      | needRefresh => exact absurd h hneed
      | canceled => exact absurd h hstate

/-- Without a cancellation the service's own message brings it to rest. -/
theorem refreshed_run : ∀ {events : List (Event controller board)}
    {s : ServiceEink controller board}, (∀ event ∈ events, event.Quiet) →
    Event.cancelRefresh ∉ events → s.einkDisplayState ≠ .canceled →
    (s.einkDisplayState = .idle ∨ ∃ message, Event.refresh message .einkOK ∈ events) →
    (events.foldl step s).einkDisplayState = .idle := by
  intro events
  induction events with
  | nil =>
      intro s _ _ _ h
      exact h.resolve_right (by simp)
  | cons event events ih =>
      intro s hquiet hcancel hstate h
      have hthis := hquiet event List.mem_cons_self
      refine ih (fun e he => hquiet e (List.mem_cons_of_mem _ he))
        (fun he => hcancel (List.mem_cons_of_mem _ he)) ?_ ?_
      · cases event with
        | refresh message status => rw [step_refresh hstate]; simp
        | image contextId picture refreshMode sender status => exact hthis.elim
        | einkMode mode => exact hthis.elim
        | cancelRefresh => exact absurd List.mem_cons_self hcancel
        | prepareEarly refreshMode prepared =>
            simp only [step, handle, handlePrepareEarlyRequest]
            split <;> exact hstate
        | switchPowerMode mode =>
            simp only [step, handle, switchPowerModeHandler]
            split <;> exact hstate
      · rcases h with hidle | ⟨message, hmem⟩
        · exact .inl (quiet_idle hthis hidle)
        · rcases List.mem_cons.1 hmem with rfl | hmem
          · exact .inl (step_refresh hstate)
          · exact .inr ⟨message, hmem⟩

/-- Whatever came before, once the transfers of an image succeeded and the service is idle
again the screen shows that image, pixel for pixel; and unless the refresh is cancelled the
service is idle as soon as its own message is handled. -/
theorem shows_last_image (panel : controller.State) (displayMode : EinkDisplayColorMode)
    (before after : List (Event controller board)) (contextId : Int) (picture : Picture board)
    (refreshMode : RefreshModes) (sender : String)
    (hrunning : (before.foldl step (init panel displayMode)).currentState = .running)
    (hquiet : ∀ event ∈ after, event.Quiet) :
    let s := (before ++ Event.image contextId picture refreshMode sender .einkOK :: after).foldl
      step (init panel displayMode)
    (s.einkDisplayState = .idle → ∀ x < board.resX, ∀ y < board.resY,
      board.shown s.panel x y = shade s.displayMode (picture.context.getPixel x y 0)) ∧
      (Event.cancelRefresh ∉ after → (∃ message, Event.refresh message .einkOK ∈ after) →
        s.einkDisplayState = .idle) := by
  intro s
  have hs : s = after.foldl step ((before.foldl step (init panel displayMode)).step
      (.image contextId picture refreshMode sender .einkOK)) := by
    rw [← List.foldl_cons, ← List.foldl_append]
  refine ⟨fun hidle x hx y hy => ?_, fun hcancel hrefresh => ?_⟩
  · have hinv : s.Inv := inv_run inv_init
    have hcontext : s.previousContext = some picture.context := by
      rw [hs, (quiet_run hquiet).1, (step_image hrunning).1]
    have hinvalid : s.isRefreshFramesSumValid = false := hinv.idle.1 hidle
    rw [(hinv.shown _ hcontext x hx y hy).resolve_left fun hdue =>
      absurd hdue.1 (by simp [hinvalid])]
    exact hinv.stored _ hcontext x hx y hy
  · rw [hs]
    exact refreshed_run hquiet hcancel (step_image_state hrunning) (.inr hrefresh)

end ServiceEink

end

def greyImage : Picture smallBoard :=
  ⟨greyPicture, fun pixel hpixel => by rw [List.eq_of_mem_replicate hpixel]; decide⟩

def refreshed : List (Event pictures smallBoard) :=
  [Event.refresh ⟨0, wholeSmallBoard, .refreshFast, "gui"⟩ .einkOK]

theorem shows_last_image_grey :
    let s := ([] ++ Event.image 0 greyImage .guiRefreshFast "gui" .einkOK :: refreshed).foldl
      ServiceEink.step (ServiceEink.init blankPanel .standard)
    (s.einkDisplayState = .idle → ∀ x < smallBoard.resX, ∀ y < smallBoard.resY,
      smallBoard.shown s.panel x y = shade s.displayMode (greyImage.context.getPixel x y 0)) ∧
      (Event.cancelRefresh ∉ refreshed →
        (∃ message, Event.refresh message .einkOK ∈ refreshed) → s.einkDisplayState = .idle) :=
  ServiceEink.shows_last_image blankPanel .standard [] refreshed 0 greyImage .guiRefreshFast "gui"
    rfl (by simp [refreshed, Event.Quiet])

end MuditaOS.Eink

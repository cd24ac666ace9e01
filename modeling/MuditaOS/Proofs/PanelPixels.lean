import MuditaOS.Eink.ED028TC1
import MuditaOS.Proofs.DrawingContext

/-!
# What the panel holds

The pixels of a frame are sent column by column, from the right and the bottom, in words of
eight, and the window of the frame is turned the same way. So wherever a frame lies and
however the frames overlap, the panel's memory ends with each pixel at the place the whole
picture would put it, and a refresh brings that place to the screen.
-/

namespace MuditaOS.Eink

open MuditaOS.Lib MuditaOS.Gui

/-! ## Words of eight pixels -/

/-- A pixel of four bits as the panel gets it. -/
def shade (invertColors : EinkDisplayColorMode) (pixel : UInt8) : UInt8 :=
  match invertColors with
  | .inverted => 15 - pixel
  | .standard => pixel

theorem toNat_shiftLeft {v k : UInt32} {n : Nat} (hk : k.toNat = n) (hn : n < 32)
    (hv : 2 ^ n * v.toNat < 2 ^ 32) : (v <<< k).toNat = 2 ^ n * v.toNat := by
  rw [UInt32.toNat_shiftLeft, Nat.shiftLeft_eq, hk, Nat.mod_eq_of_lt hn, Nat.mul_comm,
    Nat.mod_eq_of_lt hv]

/-- A shifted value joined with one that lies below it. -/
theorem toNat_shiftLeft_or {v u k : UInt32} {n : Nat} (hk : k.toNat = n) (hn : n < 32)
    (hv : 2 ^ n * v.toNat < 2 ^ 32) (hu : u.toNat < 2 ^ n) :
    ((v <<< k) ||| u).toNat = 2 ^ n * v.toNat + u.toNat := by
  rw [UInt32.toNat_or, toNat_shiftLeft hk hn hv, Nat.two_pow_add_eq_or_of_lt hu]

theorem toNat_or_shiftLeft {v u k : UInt32} {n : Nat} (hk : k.toNat = n) (hn : n < 32)
    (hv : 2 ^ n * v.toNat < 2 ^ 32) (hu : u.toNat < 2 ^ n) :
    (u ||| (v <<< k)).toNat = 2 ^ n * v.toNat + u.toNat := by
  rw [UInt32.or_comm, toNat_shiftLeft_or hk hn hv hu]

theorem toNat_pair {p q : UInt32} (hp : p.toNat < 16) (hq : q.toNat < 16) :
    ((p <<< 4) ||| q).toNat = 16 * p.toNat + q.toNat :=
  toNat_shiftLeft_or (n := 4) rfl (by decide) (by omega) (by omega)

theorem toNat_pack {p : Nat → UInt32} (hp : ∀ k, (p k).toNat < 16) :
    (pack p).toNat = 16777216 * (16 * (p 6).toNat + (p 7).toNat) +
      (65536 * (16 * (p 4).toNat + (p 5).toNat) +
        (256 * (16 * (p 2).toNat + (p 3).toNat) + (16 * (p 0).toNat + (p 1).toNat))) := by
  have h01 := toNat_pair (hp 0) (hp 1)
  have h23 := toNat_pair (hp 2) (hp 3)
  have h45 := toNat_pair (hp 4) (hp 5)
  have h67 := toNat_pair (hp 6) (hp 7)
  have hbound : ∀ i j, 16 * (p i).toNat + (p j).toNat < 256 := fun i j => by
    have := hp i
    have := hp j
    omega
  have hfirst : (((p 0 <<< 4) ||| p 1) <<< (0 : UInt32)).toNat =
      16 * (p 0).toNat + (p 1).toNat := by
    rw [toNat_shiftLeft (n := 0) rfl (by decide) (by have := hbound 0 1; omega), h01]
    omega
  have h := hbound 0 1
  have h' := hbound 2 3
  have h'' := hbound 4 5
  have h''' := hbound 6 7
  have hsecond := toNat_or_shiftLeft (v := (p 2 <<< 4) ||| p 3)
    (u := ((p 0 <<< 4) ||| p 1) <<< (0 : UInt32)) (k := 8) (n := 8) rfl (by decide)
    (by omega) (by omega)
  have hthird := toNat_or_shiftLeft (v := (p 4 <<< 4) ||| p 5) (k := 16) (n := 16) rfl (by decide)
    (by omega) (u := ((p 0 <<< 4) ||| p 1) <<< (0 : UInt32) ||| ((p 2 <<< 4) ||| p 3) <<< 8)
    (by omega)
  have hfourth := toNat_or_shiftLeft (v := (p 6 <<< 4) ||| p 7) (k := 24) (n := 24) rfl (by decide)
    (by omega) (u := ((p 0 <<< 4) ||| p 1) <<< (0 : UInt32) ||| ((p 2 <<< 4) ||| p 3) <<< 8 |||
      ((p 4 <<< 4) ||| p 5) <<< 16) (by omega)
  rw [pack, hfourth, hthird, hsecond, hfirst, h67, h45, h23]
  omega

/-- The pixels of a word are its digits, in pairs from the low byte up. -/
theorem nibbles_littleEndian {v : UInt32} {d : Nat → Nat} (hd : ∀ k, d k < 16)
    (hv : v.toNat = 16777216 * (16 * d 6 + d 7) +
      (65536 * (16 * d 4 + d 5) + (256 * (16 * d 2 + d 3) + (16 * d 0 + d 1)))) :
    nibbles (littleEndian v) = (List.range 8).map fun k => UInt8.ofNat (d k) := by
  have h0 := hd 0
  have h1 := hd 1
  have h2 := hd 2
  have h3 := hd 3
  have h4 := hd 4
  have h5 := hd 5
  have h6 := hd 6
  have h7 := hd 7
  have hhigh : ∀ b : UInt8, (b >>> 4).toNat = b.toNat / 16 := fun b => by
    rw [UInt8.toNat_shiftRight, Nat.shiftRight_eq_div_pow]
    rfl
  have hlow : ∀ b : UInt8, (b &&& 15).toNat = b.toNat % 16 := fun b => by
    rw [UInt8.toNat_and]
    exact Nat.and_two_pow_sub_one_eq_mod b.toNat 4
  have hbyte : ∀ k : UInt32, (v >>> k).toUInt8.toNat = v.toNat / 2 ^ (k.toNat % 32) % 256 :=
    fun k => by
      rw [UInt32.toNat_toUInt8, UInt32.toNat_shiftRight, Nat.shiftRight_eq_div_pow]
  have hbyte0 : v.toUInt8.toNat = v.toNat % 256 := UInt32.toNat_toUInt8 v
  have hbyte8 : (v >>> 8).toUInt8.toNat = v.toNat / 256 % 256 := hbyte 8
  have hbyte16 : (v >>> 16).toUInt8.toNat = v.toNat / 65536 % 256 := hbyte 16
  have hbyte24 : (v >>> 24).toUInt8.toNat = v.toNat / 16777216 % 256 := hbyte 24
  have hof : ∀ {b : UInt8} {n : Nat}, b.toNat = n → b = UInt8.ofNat n := fun h => by
    rw [← h, UInt8.ofNat_toNat]
  have e0 : v.toUInt8 >>> 4 = UInt8.ofNat (d 0) := hof (by rw [hhigh, hbyte0]; omega)
  have e1 : v.toUInt8 &&& 15 = UInt8.ofNat (d 1) := hof (by rw [hlow, hbyte0]; omega)
  have e2 : (v >>> 8).toUInt8 >>> 4 = UInt8.ofNat (d 2) := hof (by rw [hhigh, hbyte8]; omega)
  have e3 : (v >>> 8).toUInt8 &&& 15 = UInt8.ofNat (d 3) := hof (by rw [hlow, hbyte8]; omega)
  have e4 : (v >>> 16).toUInt8 >>> 4 = UInt8.ofNat (d 4) := hof (by rw [hhigh, hbyte16]; omega)
  have e5 : (v >>> 16).toUInt8 &&& 15 = UInt8.ofNat (d 5) := hof (by rw [hlow, hbyte16]; omega)
  have e6 : (v >>> 24).toUInt8 >>> 4 = UInt8.ofNat (d 6) := hof (by rw [hhigh, hbyte24]; omega)
  have e7 : (v >>> 24).toUInt8 &&& 15 = UInt8.ofNat (d 7) := hof (by rw [hlow, hbyte24]; omega)
  show [v.toUInt8 >>> 4, v.toUInt8 &&& 15, (v >>> 8).toUInt8 >>> 4, (v >>> 8).toUInt8 &&& 15,
      (v >>> 16).toUInt8 >>> 4, (v >>> 16).toUInt8 &&& 15, (v >>> 24).toUInt8 >>> 4,
      (v >>> 24).toUInt8 &&& 15] = _
  rw [e0, e1, e2, e3, e4, e5, e6, e7]
  rfl

theorem nibbles_pack {invertColors : EinkDisplayColorMode} {pixel : Nat → UInt8}
    (hpixel : ∀ k, pixel k < 16) :
    nibbles (littleEndian (invert invertColors (pack fun k => (pixel k).toUInt32))) =
      (List.range 8).map fun k => shade invertColors (pixel k) := by
  have hlt : ∀ k, (pixel k).toNat < 16 := fun k => UInt8.lt_iff_toNat_lt.1 (hpixel k)
  have hpack := toNat_pack (p := fun k => (pixel k).toUInt32) hlt
  simp only [UInt8.toNat_toUInt32] at hpack
  cases invertColors with
  | standard =>
      rw [invert, nibbles_littleEndian hlt hpack]
      simp [shade]
  | inverted =>
      have hnot : (~~~(pack fun k => (pixel k).toUInt32)).toNat =
          4294967295 - (pack fun k => (pixel k).toUInt32).toNat := UInt32.toNat_not _
      have h0 := hlt 0
      have h1 := hlt 1
      have h2 := hlt 2
      have h3 := hlt 3
      have h4 := hlt 4
      have h5 := hlt 5
      have h6 := hlt 6
      have h7 := hlt 7
      rw [invert, nibbles_littleEndian (d := fun k => 15 - (pixel k).toNat) (fun k => by omega)
        (by omega)]
      refine List.map_congr_left fun k _ => ?_
      have := hlt k
      rw [shade, ← UInt8.toNat_inj, UInt8.toNat_ofNat', UInt8.toNat_sub_of_le]
      · simp only [UInt8.reduceToNat]
        omega
      · rw [UInt8.le_iff_toNat_le]
        simp only [UInt8.reduceToNat]
        omega

/-! ## The stream -/

theorem getD_lt_of_forall {data : List UInt8} (h : ∀ pixel ∈ data, pixel < 16) (index : Nat) :
    data.getD index 0 < 16 := by
  by_cases hindex : index < data.length
  · rw [List.getD_eq_getElem _ _ hindex]
    exact h _ (List.getElem_mem hindex)
  · rw [List.getD_eq_default _ _ (Nat.le_of_not_lt hindex)]
    decide

theorem nibbles_flatMap {α : Type*} {l : List α} {f : α → List UInt8} :
    nibbles (l.flatMap f) = l.flatMap fun a => nibbles (f a) := List.flatMap_assoc

theorem length_littleEndian {v : UInt32} : (littleEndian v).length = 4 := rfl

theorem inputRows_succ {n : Nat} :
    inputRows (8 * (n + 1) - 1) = (8 * n + 7) :: inputRows (8 * n - 1) := by
  rw [inputRows, if_pos (by omega), show 8 * (n + 1) - 1 = 8 * n + 7 by omega,
    show 8 * n + 7 - 8 = 8 * n - 1 by omega]

theorem length_inputRows : ∀ {n : Nat}, (inputRows (8 * n - 1)).length = n := by
  intro n
  induction n with
  | zero => rw [inputRows, if_neg (by omega)]; rfl
  | succ n ih => rw [inputRows_succ, List.length_cons, ih]

theorem seven_le_of_mem {row : Nat} : ∀ {n : Nat}, row ∈ inputRows (8 * n - 1) → 7 ≤ row := by
  intro n
  induction n with
  | zero => rw [inputRows, if_neg (by omega)]; simp
  | succ n ih =>
      rw [inputRows_succ]
      intro hrow
      rcases List.mem_cons.1 hrow with rfl | hrow
      · omega
      · exact ih hrow

/-- The words of a column hold its pixels from the bottom up. -/
theorem flatMap_inputRows {α : Type*} {f : Nat → α} : ∀ {n : Nat},
    ((inputRows (8 * n - 1)).flatMap fun row => (List.range 8).map fun k => f (row - k)) =
      ((List.range (8 * n)).reverse).map f := by
  intro n
  induction n with
  | zero => rw [inputRows, if_neg (by omega)]; rfl
  | succ n ih =>
      have hrange : (List.range (8 * (n + 1))).reverse =
          ((List.range 8).map fun k => 8 * n + 7 - k) ++ (List.range (8 * n)).reverse := by
        rw [show 8 * (n + 1) = 8 * n + 8 by omega, List.range_add, List.reverse_append]
        rfl
      rw [inputRows_succ, List.flatMap_cons, ih, hrange, List.map_append, List.map_map]
      rfl

theorem nibbles_transform {resX width height : Nat} {dataIn : List UInt8}
    {invertColors : EinkDisplayColorMode} (hheight : 8 ∣ height)
    (hpixels : ∀ index, dataIn.getD index 0 < 16) :
    nibbles (transformFrameCoordinateSystem4Bpp resX dataIn width height invertColors) =
      (List.range width).reverse.flatMap fun col => (List.range height).reverse.map fun row =>
        shade invertColors (dataIn.getD (row * resX + col) 0) := by
  obtain ⟨n, rfl⟩ := hheight
  rw [transformFrameCoordinateSystem4Bpp, nibbles_flatMap]
  refine List.flatMap_congr fun col _ => ?_
  rw [nibbles_flatMap, ← flatMap_inputRows]
  refine List.flatMap_congr fun row hrow => ?_
  rw [nibbles_pack fun k => hpixels _]
  refine List.map_congr_left fun k hk => ?_
  -- the word's pixels all lie in the picture: its first one is in row seven or below
  have hk : k ≤ 7 := by
    have := List.mem_range.1 hk
    omega
  have hseven := seven_le_of_mem hrow
  congr 2
  rw [Nat.sub_mul]
  have := Nat.mul_le_mul_right resX (Nat.le_trans hk hseven)
  omega

theorem length_nibbles {data : List UInt8} : (nibbles data).length = data.length * 2 := by
  have hpair : ∀ b : UInt8, [b >>> 4, b &&& 15].length = 2 := fun _ => rfl
  exact length_flatMap hpair

theorem length_transform {resX width height : Nat} {dataIn : List UInt8}
    {invertColors : EinkDisplayColorMode} (hheight : 8 ∣ height) :
    (transformFrameCoordinateSystem4Bpp resX dataIn width height invertColors).length =
      width * height / 2 := by
  obtain ⟨n, rfl⟩ := hheight
  have hwords : ∀ col, ((inputRows (8 * n - 1)).flatMap fun row =>
      littleEndian (invert invertColors (pack fun k =>
        pixelAt dataIn (row * resX + col - k * resX)))).length = n * 4 := fun col => by
    rw [length_flatMap fun _ => length_littleEndian, length_inputRows]
  have hbytes := length_flatMap hwords (l := (List.range width).reverse)
  rw [List.length_reverse, List.length_range] at hbytes
  rw [transformFrameCoordinateSystem4Bpp, hbytes, show width * (8 * n) = width * (n * 4) * 2 by
    ring, Nat.mul_div_cancel _ (by decide)]

/-- The pixel sent for a place of the window. -/
theorem getD_transform {resX width height column line : Nat} {dataIn : List UInt8}
    {invertColors : EinkDisplayColorMode} (hheight : 8 ∣ height)
    (hpixels : ∀ index, dataIn.getD index 0 < 16) (hline : line < width)
    (hcolumn : column < height) :
    (nibbles (transformFrameCoordinateSystem4Bpp resX dataIn width height invertColors)).getD
        (line * height + column) 0 =
      shade invertColors (dataIn.getD ((height - 1 - column) * resX + (width - 1 - line)) 0) := by
  rw [nibbles_transform hheight hpixels, List.getD_eq_getElem?_getD,
    getElem?_flatMap (fun _ => by rw [List.length_map, List.length_reverse, List.length_range])
      hcolumn]
  have hcol : (List.range width).reverse[line]? = some (width - 1 - line) := by
    rw [List.getElem?_reverse (by rwa [List.length_range]), List.length_range,
      List.getElem?_range (by omega)]
  have hrow : (List.range height).reverse[column]? = some (height - 1 - column) := by
    rw [List.getElem?_reverse (by rwa [List.length_range]), List.length_range,
      List.getElem?_range (by omega)]
  rw [hcol, Option.bind_some, List.getElem?_map, hrow]
  rfl

/-! ## An upright panel -/

theorem inputCols_succ {n : Nat} :
    inputCols (8 * (n + 1 : Nat) - 7) = (8 * n + 1) :: inputCols (8 * n - 7) := by
  rw [inputCols, if_pos (by omega), show (8 * ((n + 1 : Nat) : Int) - 7).toNat = 8 * n + 1 by omega,
    show 8 * ((n + 1 : Nat) : Int) - 7 - 8 = 8 * n - 7 by omega]

theorem length_inputCols : ∀ {n : Nat}, (inputCols (8 * n - 7)).length = n := by
  intro n
  induction n with
  | zero => rw [inputCols, if_neg (by omega)]; rfl
  | succ n ih => rw [inputCols_succ, List.length_cons, ih]

section

variable {controller : Controller} {board : Board} {panel : controller.State}
  {invertColors : EinkDisplayColorMode} {frame : EinkFrame} {x y : Nat}

/-- The lines of a frame. -/
def EinkFrame.lines (frame : EinkFrame) : Block := ⟨frame.pos_y, frame.size.height⟩

/-- A frame of whole lines. -/
structure Board.Fits (board : Board) (frame : EinkFrame) : Prop where
  pos_x : frame.pos_x = 0
  width : frame.size.width = board.resX
  stop : frame.lines.stop ≤ board.resY

/-- The picture in the panel's memory, in the picture's coordinates. -/
def Board.stored (board : Board) (panel : controller.State) (x y : Nat) : UInt8 :=
  controller.memory panel (board.resY - 1 - y) (board.resX - 1 - x)

/-- The picture on the screen. -/
def Board.shown (board : Board) (panel : controller.State) (x y : Nat) : UInt8 :=
  controller.screen panel (board.resY - 1 - y) (board.resX - 1 - x)

theorem Board.Fits.holds_iff (h : board.Fits frame) (hx : x < board.resX) (hy : y < board.resY) :
    (board.window frame).Holds (board.resY - 1 - y) (board.resX - 1 - x) ↔
      frame.lines.Holds y := by
  obtain ⟨hpos, hwidth, hstop⟩ := h
  simp only [Window.Holds, Board.window, Board.getDisplayXAxis, Board.getDisplayYAxis,
    getDisplayWindowWidth, getDisplayWindowHeight, Block.Holds, Block.stop, EinkFrame.lines,
    hpos, hwidth] at *
  omega

theorem Board.Fits.bounds (h : board.Fits frame) :
    (board.window frame).x < 65536 ∧ (board.window frame).y < 65536 ∧
      (board.window frame).width < 65536 ∧ (board.window frame).height < 65536 := by
  have hX := board.boundX
  have hY := board.boundY
  obtain ⟨hpos, hwidth, hstop⟩ := h
  simp only [Board.window, Board.getDisplayXAxis, Board.getDisplayYAxis,
    getDisplayWindowWidth, getDisplayWindowHeight, Block.stop, EinkFrame.lines, hpos,
    hwidth] at *
  omega

/-- One transfer puts the frame's lines of the picture in place, and nothing else. -/
theorem stored_updateFrame {frameBuffer : List UInt8} (h : board.Fits frame)
    (hheight : 8 ∣ frame.size.height) (hpixels : ∀ index, frameBuffer.getD index 0 < 16)
    (hx : x < board.resX) (hy : y < board.resY) :
    board.stored (updateFrame board frame
        (frameBuffer.drop (frame.pos_y * frame.size.width)) invertColors panel) x y =
      if frame.lines.Holds y then shade invertColors (frameBuffer.getD (y * board.resX + x) 0)
      else board.stored panel x y := by
  obtain ⟨hbx, hby, hbw, hbh⟩ := h.bounds
  have hdrop : ∀ n index, (frameBuffer.drop n).getD index 0 = frameBuffer.getD (n + index) 0 :=
    fun n index => by
      rw [List.getD_eq_getElem?_getD, List.getElem?_drop, List.getD_eq_getElem?_getD]
  have hbuffer : ∀ index, (frameBuffer.drop (frame.pos_y * frame.size.width)).getD index 0 < 16 :=
    fun index => by
      rw [hdrop]
      exact hpixels _
  have hholds := h.holds_iff hx hy
  obtain ⟨hpos, hwidth, hstop⟩ := h
  have hpixelCount : (nibbles (transformFrameCoordinateSystem4Bpp board.resX
      (frameBuffer.drop (frame.pos_y * frame.size.width)) frame.size.width frame.size.height
      invertColors)).length = frame.size.height * frame.size.width := by
    rw [length_nibbles, length_transform hheight, Nat.mul_comm frame.size.height]
    exact Nat.div_mul_cancel (Dvd.dvd.mul_left (Dvd.dvd.trans (by decide) hheight) _)
  have hmessage : ∀ rotated : List UInt8,
      rotated.length = frame.size.width * frame.size.height / 2 →
      (einkDataStartTransmission1 :: eink4Bpp :: rotated).take
          (2 + frame.size.width * frame.size.height / 2) =
        einkDataStartTransmission1 :: eink4Bpp :: rotated := fun rotated hlen =>
    List.take_of_length_le (by simp only [List.length_cons]; omega)
  rw [Board.stored, updateFrame, hmessage _ (length_transform hheight),
    controller.memory_load _ _ _ _ _ hbx hby hbw hbh hpixelCount]
  simp only [hholds]
  split
  · next hthere =>
      have hline : frame.pos_y ≤ y ∧ y < frame.pos_y + frame.size.height := hthere
      have hfits : frame.pos_y + frame.size.height ≤ board.resY := hstop
      rw [show (board.window frame).y = 0 by
          simp only [Board.window, Board.getDisplayYAxis, hpos, hwidth]
          omega,
        show (board.window frame).width = frame.size.height from rfl,
        show (board.window frame).x = board.resY - frame.pos_y - frame.size.height from rfl,
        getD_transform hheight hbuffer (by omega) (by omega), hdrop, hwidth]
      congr 2
      rw [show frame.size.height - 1 - (board.resY - 1 - y -
          (board.resY - frame.pos_y - frame.size.height)) = y - frame.pos_y by omega,
        Nat.sub_mul]
      have := Nat.mul_le_mul_right board.resX hline.1
      omega
  · rfl

theorem screen_updateFrame {buffer : List UInt8} :
    controller.screen (updateFrame board frame buffer invertColors panel) =
      controller.screen panel := controller.screen_load _ _ _

/-- The frames may overlap and come in any order: every line of one of them ends up in place. -/
theorem stored_showImageUpdate {frameBuffer : List UInt8}
    (hpixels : ∀ index, frameBuffer.getD index 0 < 16) (hx : x < board.resX)
    (hy : y < board.resY) : ∀ {frames : List EinkFrame} {panel : controller.State},
    (∀ frame ∈ frames, board.Fits frame ∧ 8 ∣ frame.size.height) →
    board.stored (showImageUpdate board frames frameBuffer invertColors panel) x y =
      if ∃ frame ∈ frames, frame.lines.Holds y then
        shade invertColors (frameBuffer.getD (y * board.resX + x) 0)
      else board.stored panel x y := by
  intro frames
  induction frames with
  | nil => intro panel _; simp [showImageUpdate]
  | cons frame frames ih =>
      intro panel h
      obtain ⟨hfits, hheight⟩ := h frame List.mem_cons_self
      have hrest := @ih (updateFrame board frame
        (frameBuffer.drop (frame.pos_y * frame.size.width)) invertColors panel)
        fun f hf => h f (List.mem_cons_of_mem _ hf)
      rw [showImageUpdate, List.foldl_cons, ← showImageUpdate, hrest,
        stored_updateFrame hfits hheight hpixels hx hy]
      simp only [List.mem_cons, exists_eq_or_imp]
      by_cases hthis : frame.lines.Holds y
      · simp [hthis]
      · simp [hthis]

theorem screen_showImageUpdate {frameBuffer : List UInt8} : ∀ {frames : List EinkFrame}
    {panel : controller.State},
    controller.screen (showImageUpdate board frames frameBuffer invertColors panel) =
      controller.screen panel := by
  intro frames
  induction frames with
  | nil => intro panel; rfl
  | cons frame frames ih =>
      intro panel
      rw [showImageUpdate, List.foldl_cons, ← showImageUpdate, ih, screen_updateFrame]

theorem stored_showImageRefresh {refreshMode : EinkRefreshMode} :
    board.stored (showImageRefresh board frame refreshMode panel) x y =
      board.stored panel x y := by
  rw [Board.stored, showImageRefresh, refreshImage, controller.memory_refresh,
    controller.memory_prepare, Board.stored]

theorem shown_showImageRefresh {refreshMode : EinkRefreshMode} (h : board.Fits frame)
    (hx : x < board.resX) (hy : y < board.resY) :
    board.shown (showImageRefresh board frame refreshMode panel) x y =
      if frame.lines.Holds y then board.stored panel x y else board.shown panel x y := by
  obtain ⟨hbx, hby, hbw, hbh⟩ := h.bounds
  rw [Board.shown, showImageRefresh, refreshImage,
    controller.screen_refresh _ _ _ _ hbx hby hbw hbh]
  simp only [h.holds_iff hx hy, controller.memory_prepare, controller.screen_prepare]
  rfl

end

/-! ## A controller -/

def Window.ofArguments : List UInt8 → Window
  | [x1, x0, y1, y0, w1, w0, h1, h0] =>
      ⟨x1.toNat * 256 + x0.toNat, y1.toNat * 256 + y0.toNat, w1.toNat * 256 + w0.toNat,
        h1.toNat * 256 + h0.toNat⟩
  | _ => ⟨0, 0, 0, 0⟩

theorem toNat_msbLsb {v : Nat} (hv : v < 65536) :
    (UInt8.ofNat (v >>> 8)).toNat * 256 + (UInt8.ofNat v).toNat = v := by
  rw [UInt8.toNat_ofNat', UInt8.toNat_ofNat', Nat.shiftRight_eq_div_pow]
  omega

theorem Window.ofArguments_arguments {window : Window} (hx : window.x < 65536)
    (hy : window.y < 65536) (hwidth : window.width < 65536) (hheight : window.height < 65536) :
    Window.ofArguments window.arguments = window := by
  show Window.mk _ _ _ _ = window
  rw [toNat_msbLsb hx, toNat_msbLsb hy, toNat_msbLsb hwidth, toNat_msbLsb hheight]

/-- A controller that keeps its memory and its screen as two pictures. -/
def pictures : Controller where
  State := (Nat → Nat → UInt8) × (Nat → Nat → UInt8)
  memory := Prod.fst
  screen := Prod.snd
  prepare _ s := s
  load command message s :=
    let window := Window.ofArguments command.tail
    (fun column line =>
      if window.Holds column line then
        (nibbles (message.drop 2)).getD
          ((line - window.y) * window.width + (column - window.x)) 0
      else s.1 column line, s.2)
  refresh command s :=
    (s.1, fun column line =>
      if (Window.ofArguments (command.drop 2)).Holds column line then s.1 column line
      else s.2 column line)
  memory_prepare _ _ := rfl
  screen_prepare _ _ := rfl
  memory_load window data s column line hx hy hwidth hheight _ := by
    simp only [List.tail_cons, Window.ofArguments_arguments hx hy hwidth hheight]
    rfl
  screen_load _ _ _ := rfl
  memory_refresh _ _ := rfl
  screen_refresh window s column line hx hy hwidth hheight := by
    simp only [List.drop_succ_cons, List.drop_zero,
      Window.ofArguments_arguments hx hy hwidth hheight]

def smallBoard : Board := ⟨8, 8, by decide, by decide, by decide, by decide⟩

def greyPicture : Context smallBoard.resX smallBoard.resY := (Context.init _ _).fill 3

def blankPanel : pictures.State := (fun _ _ => 0, fun _ _ => 0)

def wholeSmallBoard : EinkFrame := ⟨0, 0, ⟨8, 8⟩⟩

end MuditaOS.Eink

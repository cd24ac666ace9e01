import MuditaOS.Proofs.TextEdits

/-!
# The editor and the plain one in a session

The invariant of a session is that the cursor shows the plain text and its
index. Each edit keeps it when it fits, and an edit that does not fit ends in
another text, at another place, or with an iterator whose block is gone. So a
session is good exactly as long as its edits fit.
-/

namespace MuditaOS.Gui

open BlockCursor Typing Lib

namespace Typing

/-- The cursor shows what the plain editor has. -/
structure Follows (s : Typing) : Prop where
  dangling : s.dangling = false
  start : s.editor.cursorStartPosition ≠ .documentBegin
  shows : Shows s.editor.toBlockCursor s.plain.text s.plain.index

variable {s : Typing} {op : Edit} {editor : TextCursor}

theorem follows_init : Follows {} where
  dangling := rfl
  start := by decide
  shows := {
    shaped := ⟨List.nodup_nil, by simp, by simp, by simp [OpenEnd]⟩
    text := rfl
    place := Or.inl ⟨rfl, rfl, rfl, rfl⟩ }

theorem step_some (h : s.editor.edit op = some editor) :
    s.step op = { s with editor := editor, plain := s.plain.edit op } := by
  rw [step, h]

theorem not_good_of_none (h : s.editor.edit op = none) : ¬ s.Good op := by
  intro hgood
  have hdangling := hgood.1
  rw [step, h] at hdangling
  exact Bool.false_ne_true hdangling.symm

/-- It is enough that the new cursor shows the new text. -/
theorem follows_step (h : s.Follows) (hedit : s.editor.edit op = some editor)
    (hstart : editor.cursorStartPosition = s.editor.cursorStartPosition)
    (hshows : Shows editor.toBlockCursor (s.plain.edit op).text (s.plain.edit op).index) :
    (s.step op).Follows := by
  rw [step_some hedit]
  exact ⟨h.dangling, hstart ▸ h.start, hshows⟩

theorem Follows.agrees (h : s.Follows) : s.Agrees := ⟨h.shows.text, h.shows.getAbsolutePosition⟩

theorem Follows.good (h : (s.step op).Follows) : s.Good op := ⟨h.dangling, h.agrees⟩

theorem not_good_of_text (hedit : s.editor.edit op = some editor)
    (h : editor.document.getText ≠ (s.plain.edit op).text) : ¬ s.Good op := by
  intro hgood
  have hagrees := hgood.2
  rw [step_some hedit] at hagrees
  exact h hagrees.1

theorem not_good_of_place {i : Nat} (hedit : s.editor.edit op = some editor)
    (hplaced : Placed editor.toBlockCursor i) (h : i ≠ (s.plain.edit op).index) :
    ¬ s.Good op := by
  intro hgood
  have hagrees := hgood.2
  rw [step_some hedit] at hagrees
  have hplace := hagrees.2
  dsimp only at hplace
  rw [hplaced.resetNpos, hplaced.getAbsolutePosition] at hplace
  exact h (Option.some.inj hplace)

end Typing

/-! ## A document without blocks -/

section Empty

variable {c : BlockCursor} {t : TextCursor} {direction : Direction}

theorem not_stuckLeft_of_nil (h : c.document.blocks = []) : ¬ c.StuckLeft := by
  intro hstuck
  obtain ⟨k, a, _, _, _, ha, _⟩ := hstuck
  rw [h] at ha
  exact absurd ha (by simp)

theorem not_stuckRight_of_nil (h : c.document.blocks = []) : ¬ c.StuckRight := by
  intro hstuck
  obtain ⟨k, a, _, _, ha, _⟩ := hstuck
  rw [h] at ha
  exact absurd ha (by simp)

theorem moveCursor_of_nil (h : t.document.blocks = []) : (t.moveCursor direction).2 = t := by
  have hdoc : t.checkDocument = false := by
    rw [BlockCursor.checkDocument, h]
    rfl
  rw [TextCursor.moveCursor.eq_def, hdoc]
  rfl

theorem Shows.text_of_nil {text : Codes} {i : Nat} (h : Shows c text i)
    (hblocks : c.document.blocks = []) : text = [] := by
  rw [← h.text, TextDocument.getText, hblocks]
  rfl

end Empty

/-! ## Moves -/

namespace Typing

variable {s : Typing}

theorem moveLeft_iff (h : s.Follows) :
    (s.Good (.move .left) ↔ s.Fits (.move .left)) ∧
      (s.Fits (.move .left) → (s.step (.move .left)).Follows) := by
  have hkeep : s.Fits (.move .left) → (s.step (.move .left)).Follows := by
    intro hfits
    refine follows_step h rfl moveCursor_startPosition ?_
    rcases h.shows.place with ⟨hblocks, _, _, hi⟩ | hplaced
    · rw [moveCursor_of_nil hblocks]
      simpa [Plain.edit, hi] using h.shows
    · refine Shows.of_move h.shows.shaped h.shows.text ?_
      show Placed _ (s.plain.index - 1)
      cases hi : s.plain.index with
      | zero => exact moveLeft_zero (hi ▸ hplaced)
      | succ i => exact (moveLeft_onChar (hi ▸ hplaced) hfits).placed
  refine ⟨⟨fun hgood hstuck => ?_, fun hfits => (hkeep hfits).good⟩, hkeep⟩
  rcases h.shows.place with ⟨hblocks, _⟩ | hplaced
  · exact not_stuckLeft_of_nil hblocks hstuck
  · obtain ⟨hne, before, node, after, hhere, hend, hi⟩ := moveLeft_stuck hplaced hstuck
    have hlast := Nat.le_of_eq (lastPos_of_none hend).symm
    refine not_good_of_place rfl ⟨before, node, after, _, hhere, hlast, hi⟩ ?_ hgood
    show s.plain.index ≠ s.plain.index - 1
    omega

theorem moveRight_iff (h : s.Follows) :
    (s.Good (.move .right) ↔ s.Fits (.move .right)) ∧
      (s.Fits (.move .right) → (s.step (.move .right)).Follows) := by
  have hkeep : s.Fits (.move .right) → (s.step (.move .right)).Follows := by
    intro hfits
    refine follows_step h rfl moveCursor_startPosition ?_
    rcases h.shows.place with ⟨hblocks, _, _, hi⟩ | hplaced
    · rw [moveCursor_of_nil hblocks]
      simpa [Plain.edit, hi, h.shows.text_of_nil hblocks] using h.shows
    · have hmove := moveRight_placed hplaced h.shows.shaped.openEnd hfits
      rw [h.shows.text] at hmove
      exact Shows.of_move h.shows.shaped h.shows.text hmove
  refine ⟨⟨fun hgood hstuck => ?_, fun hfits => (hkeep hfits).good⟩, hkeep⟩
  rcases h.shows.place with ⟨hblocks, _⟩ | hplaced
  · exact not_stuckRight_of_nil hblocks hstuck
  · obtain ⟨hne, hstay⟩ := moveRight_stuck hplaced hstuck
    have hle := hplaced.le_length
    refine not_good_of_place rfl hstay ?_ hgood
    show s.plain.index ≠ min (s.plain.index + 1) s.plain.text.length
    rw [h.shows.text] at hne hle
    omega

/-! ## Typing -/

variable {code : CodePoint}

theorem not_inZero_of_nil {c : BlockCursor} {id : Nat} (h : Here c [] ⟨id, ⟨[]⟩⟩ [] 0) :
    ¬ c.InZero := by
  intro hzero
  obtain ⟨node, hnode, hmem⟩ := hzero
  obtain rfl := Option.some.inj (h.currentBlock.symm.trans hnode)
  exact absurd hmem (by simp)

/-- Typing into no block is typing into an empty one. -/
theorem addChar_start (h : s.Follows) :
    ∃ t : TextCursor, Placed t.toBlockCursor s.plain.index ∧
      Shaped t.document.blocks t.document.nextId ∧ t.document.getText = s.plain.text ∧
      t.cursorStartPosition = s.editor.cursorStartPosition ∧
      (t.InZero ↔ s.editor.InZero) ∧ s.editor.addChar code.val = t.addChar code.val := by
  rcases h.shows.place with ⟨hblocks, hpos, hnumber, hi⟩ | hplaced
  · obtain ⟨c, hhere, hnext, heq⟩ := @addChar_empty s.editor.toBlockCursor code.val hblocks hpos
      hnumber
    refine ⟨{ s.editor with toBlockCursor := c }, ?_, ?_, ?_, rfl, ?_, ?_⟩
    · rw [hi]
      exact ⟨_, _, _, _, hhere, Nat.zero_le _, rfl⟩
    · show Shaped c.document.blocks c.document.nextId
      rw [hhere.blocks, hnext]
      refine ⟨by simp, by simp, ?_, by simp [OpenEnd, TextBlock.getEnd]⟩
      intro node hnode
      obtain rfl := List.mem_singleton.1 hnode
      exact ⟨[], .none, rfl, by simp⟩
    · show c.document.getText = _
      rw [hhere.getText, h.shows.text_of_nil hblocks]
      rfl
    · refine iff_of_false (not_inZero_of_nil hhere) fun hzero => ?_
      obtain ⟨node, hnode, _⟩ := hzero
      rw [BlockCursor.currentBlock, hblocks] at hnode
      cases hnumber' : s.editor.currentBlockNumber <;> simp [hnumber'] at hnode
    · rw [TextCursor.addChar, TextCursor.addChar, heq]
  · exact ⟨s.editor, hplaced, h.shows.shaped, h.shows.text, rfl, Iff.rfl, rfl⟩

theorem addChar_iff (h : s.Follows) :
    (s.Good (.addChar code) ↔ s.Fits (.addChar code)) ∧
      (s.Fits (.addChar code) → (s.step (.addChar code)).Follows) := by
  obtain ⟨t, hplaced, hshape, htext, hstart, hzero, heq⟩ := @addChar_start s code h
  have hstart' : t.cursorStartPosition ≠ .documentBegin := hstart ▸ h.start
  have hedit : s.editor.edit (.addChar code) = some (t.addChar code.val) := congrArg some heq
  have hkeep : s.Fits (.addChar code) → (s.step (.addChar code)).Follows := by
    intro hfits
    obtain ⟨henc, hfree⟩ := hfits
    have hshows := addChar_placed hplaced hshape hstart' henc fun hcode hin =>
      hfree hcode (hzero.1 hin)
    rw [htext] at hshows
    refine follows_step h hedit ?_ hshows
    rw [addChar_move hstart', moveCursor_startPosition]
    exact hstart
  have hmiss : Unicode.encode code.val = none ∨ code.val = newline ∧ t.InZero →
      ¬ s.Good (.addChar code) := by
    intro hbad
    have hshort := addChar_misses hplaced hshape hstart' hbad
    refine not_good_of_text hedit fun heq => ?_
    have hlong := congrArg List.length heq
    rw [Plain.edit, List.length_insertIdx_of_le_length (htext ▸ hplaced.le_length),
      ← htext] at hlong
    omega
  refine ⟨⟨fun hgood => ⟨fun henc => ?_, fun hcode hin => ?_⟩, fun hfits => (hkeep hfits).good⟩,
    hkeep⟩
  · exact hmiss (Or.inl henc) hgood
  · exact hmiss (Or.inr ⟨hcode, hzero.2 hin⟩) hgood

/-! ## Deleting -/

theorem edit_removeChar {removed : Bool} {c : BlockCursor}
    (h : (s.editor.moveCursor .left).2.toBlockCursor.removeChar = some (removed, c)) :
    s.editor.edit .removeChar =
      some { (s.editor.moveCursor .left).2 with toBlockCursor := c } := by
  rw [TextCursor.edit, TextCursor.removeChar]
  dsimp only
  rw [h]
  rfl

theorem edit_removeChar_none
    (h : (s.editor.moveCursor .left).2.toBlockCursor.removeChar = none) :
    s.editor.edit .removeChar = none := by
  rw [TextCursor.edit, TextCursor.removeChar]
  dsimp only
  rw [h]
  rfl

theorem removeChar_iff (h : s.Follows) (hallowed : s.Allowed .removeChar) :
    (s.Good .removeChar ↔ s.Fits .removeChar) ∧
      (s.Fits .removeChar → (s.step .removeChar).Follows) := by
  rcases h.shows.place with ⟨_, _, _, hi⟩ | hplaced
  · exact absurd hi (hallowed rfl)
  obtain ⟨i, hi⟩ := Nat.exists_eq_succ_of_ne_zero (hallowed rfl)
  rw [hi] at hplaced
  have hshape : Shaped (s.editor.moveCursor .left).2.document.blocks
      (s.editor.moveCursor .left).2.document.nextId := by
    rw [moveCursor_document]
    exact h.shows.shaped
  have htext : (s.editor.moveCursor .left).2.document.getText = s.plain.text := by
    rw [moveCursor_document]
    exact h.shows.text
  by_cases hstuck : s.editor.StuckLeft
  · have hnot : ¬ s.Good .removeChar := by
      obtain ⟨hne, before, node, after, hhere, hend, hlen⟩ := moveLeft_stuck hplaced hstuck
      have hsame := removeChar_nothing hhere hshape (hlen ▸ hne)
      cases hremove : (s.editor.moveCursor .left).2.toBlockCursor.removeChar with
      | none => exact not_good_of_none (edit_removeChar_none hremove)
      | some r =>
          refine not_good_of_text (edit_removeChar hremove) fun heq => ?_
          have hle := hplaced.le_length
          rw [h.shows.text] at hle
          have hshort : (s.plain.edit .removeChar).text.length = s.plain.text.length - 1 := by
            rw [Plain.edit, hi]
            exact List.length_eraseIdx_of_lt hle
          rw [← heq] at hshort
          dsimp only at hshort
          rw [hsame r hremove, htext] at hshort
          omega
    exact ⟨iff_of_false hnot fun hfits => hfits.1 hstuck, fun hfits => absurd hstuck hfits.1⟩
  · obtain ⟨before, node, after, p, hhere, hlt, hp, rfl⟩ := moveLeft_onChar hplaced hstuck
    have hempties := @emptiesFirst_iff s.editor.toBlockCursor before after node p
      (by rw [← moveCursor_document]; exact hhere.blocks) hplaced.getAbsolutePosition
    by_cases hd : Dangles before node after
    · have hnot := not_good_of_none
        (edit_removeChar_none (removeChar_dangles hhere hshape hlt hd))
      have hempty : s.editor.EmptiesFirst := by
        refine hempties.2 ⟨?_, hd⟩
        obtain ⟨rfl, hone, _⟩ := hd
        rw [textOf_nil, List.length_nil]
        omega
      exact ⟨iff_of_false hnot fun hfits => hfits.2 hempty, fun hfits => absurd hempty hfits.2⟩
    · obtain ⟨c, hremove, hshows⟩ := removeChar_shows hhere hshape hp hlt hd
      have hkeep : (s.step .removeChar).Follows := by
        refine follows_step h (edit_removeChar hremove) moveCursor_startPosition ?_
        rw [htext] at hshows
        rw [Plain.edit, hi]
        exact hshows
      have hfits : s.Fits .removeChar := ⟨hstuck, fun hempty => hd (hempties.1 hempty).2⟩
      exact ⟨iff_of_true hkeep.good hfits, fun _ => hkeep⟩

/-! ## Every session -/

theorem step_iff (h : s.Follows) (hallowed : s.Allowed op) :
    (s.Good op ↔ s.Fits op) ∧ (s.Fits op → (s.step op).Follows) := by
  cases op with
  | addChar code => exact addChar_iff h
  | removeChar => exact removeChar_iff h hallowed
  | move direction =>
      cases direction with
      | left => exact moveLeft_iff h
      | right => exact moveRight_iff h

/-- The editor agrees with the plain one after every edit, and uses no block that
was removed, exactly when every edit fits. -/
theorem good_iff_fits {ops : List Edit} (hallowed : EveryStep Allowed step {} ops) :
    EveryStep Good step {} ops ↔ EveryStep Fits step {} ops := by
  have hiff := @everyStep_congr Typing Edit Follows (fun s op => s.Allowed op ∧ s.Good op)
    (fun s op => s.Allowed op ∧ s.Fits op) step
    (fun s op h => and_congr_right fun hallowed => (step_iff h hallowed).1)
    (fun s op h hfits => (step_iff h hfits.1).2 hfits.2) ops {} follows_init
  rw [everyStep_and, everyStep_and] at hiff
  exact ⟨fun hgood => (hiff.1 ⟨hallowed, hgood⟩).2, fun hfits => (hiff.2 ⟨hallowed, hfits⟩).2⟩

/-- A line is split in the middle and joined again. -/
theorem joins_fit : EveryStep Fits step {}
    [.addChar ⟨0x61, by decide⟩, .addChar ⟨0x62, by decide⟩, .move .left,
      .addChar ⟨newline, by decide⟩, .removeChar, .move .right, .removeChar] :=
  (good_iff_fits (by decide)).1 (by decide)

/-- `a`, a newline and two deletions: the first leaves an empty block behind, and the
second removes it before its iterator is used again. -/
theorem dangles_behind_first :
    EveryStep Allowed step {}
        [.addChar ⟨0x61, by decide⟩, .addChar ⟨newline, by decide⟩, .removeChar, .removeChar] ∧
      ¬ EveryStep Good step {}
        [.addChar ⟨0x61, by decide⟩, .addChar ⟨newline, by decide⟩, .removeChar,
          .removeChar] := by
  decide

/-- Behind an empty block a move to the left does not pass a character. -/
example :
    ¬ EveryStep Good step {}
      [.addChar ⟨0x61, by decide⟩, .addChar ⟨newline, by decide⟩,
        .addChar ⟨newline, by decide⟩, .removeChar, .removeChar, .move .right, .move .left] := by
  decide

end Typing

end MuditaOS.Gui

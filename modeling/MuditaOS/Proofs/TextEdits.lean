import MuditaOS.Proofs.TextBlocks

/-!
# Typing and deleting

What the cursor shows is a text and an index into it. A character typed in a
line goes into that line, and a newline splits it. A deletion takes the
character behind the cursor, and with it the empty block that comes next, or the
first block when it is left empty; but where both of these go, the iterator to
the next block is used once more.
-/

namespace MuditaOS.Gui

open BlockCursor

/-! ## What a cursor shows -/

/-- There is no block, or the cursor is at a place of one. -/
structure Shows (c : BlockCursor) (text : Codes) (index : Nat) : Prop where
  shaped : Shaped c.document.blocks c.document.nextId
  text : c.document.getText = text
  place : (c.document.blocks = [] ∧ c.pos.getD 0 = 0 ∧ c.currentBlockNumber.getD 0 = 0 ∧
    index = 0) ∨ Placed c index

variable {c : BlockCursor} {t : TextCursor} {text : Codes} {before after : List Node}
  {node : Node} {p i : Nat} {code : UInt32}

theorem Placed.resetNpos (h : Placed c i) : c.resetNpos = c := by
  obtain ⟨before, node, after, p, hhere, _⟩ := h
  exact hhere.resetNpos

theorem Placed.getAbsolutePosition (h : Placed c i) : c.getAbsolutePosition = some i := by
  obtain ⟨before, node, after, p, hhere, _, hi⟩ := h
  rw [hhere.getAbsolutePosition, hi]

theorem Shows.getAbsolutePosition (h : Shows c text i) :
    c.resetNpos.getAbsolutePosition = some i := by
  rcases h.place with ⟨hblocks, hpos, hnumber, rfl⟩ | hplaced
  · rw [resetNpos, BlockCursor.getAbsolutePosition]
    dsimp only
    rw [hpos, hnumber, hblocks]
    rfl
  · rw [hplaced.resetNpos, hplaced.getAbsolutePosition]

theorem Placed.le_length (h : Placed c i) : i ≤ c.document.getText.length := by
  obtain ⟨before, node, after, p, hhere, hp, rfl⟩ := h
  have hle := lastPos_le node.block
  rw [hhere.getText, List.length_append, List.length_append]
  omega

/-- A move changes nothing but the place. -/
theorem Shows.of_move {direction : Direction}
    (hshape : Shaped t.document.blocks t.document.nextId) (htext : t.document.getText = text)
    (hplace : Placed (t.moveCursor direction).2.toBlockCursor i) :
    Shows (t.moveCursor direction).2.toBlockCursor text i where
  shaped := by
    rw [moveCursor_document]
    exact hshape
  text := by
    rw [moveCursor_document]
    exact htext
  place := Or.inr hplace

/-! ## Typing -/

theorem addChar_here (h : Here c before node after p) :
    c.addChar code = if code = newline then c.addNewline
      else { c with document := c.document.update node.id (·.addChar code (some p)) } := by
  have hblocks : c.document.blocks.length ≠ 0 := by
    rw [h.blocks, List.length_append, List.length_cons]
    omega
  rw [addChar, if_neg fun hempty => hblocks hempty.1, if_neg hblocks]
  dsimp only
  rw [h.currentBlock, h.pos]

theorem increment_resetNpos (h : c.checkDocument = true) :
    c.resetNpos.increment = c.increment := by
  have hreset : c.resetNpos.checkDocument = true := h
  rw [increment, increment, hreset, h]
  rfl

/-- The first character is typed into a block made for it. -/
theorem addChar_empty (hblocks : c.document.blocks = []) (hpos : c.pos.getD 0 = 0)
    (hnumber : c.currentBlockNumber.getD 0 = 0) :
    ∃ c', Here c' [] ⟨c.document.nextId, ⟨[]⟩⟩ [] 0 ∧
      c'.document.nextId = c.document.nextId + 1 ∧ c.addChar code = c'.addChar code := by
  let c' := { c with document := c.document.append (.ofText [] .none) }
  have hhere : Here c'.resetNpos [] ⟨c.document.nextId, ⟨[]⟩⟩ [] 0 := by
    refine ⟨?_, ?_, ?_⟩
    · show c.document.blocks ++ [_] = _
      rw [hblocks]
      rfl
    · exact congrArg some hnumber
    · exact congrArg some hpos
  refine ⟨c'.resetNpos, hhere, rfl, ?_⟩
  rw [addChar_here hhere, addChar, hblocks]
  by_cases hcode : code = newline
  · have hstay : c'.increment = c'.resetNpos :=
      (@increment_resetNpos c' hhere.checkDocument).symm.trans (increment_last hhere rfl)
    rw [if_pos ⟨rfl, hcode⟩, if_pos hcode]
    dsimp only
    rw [hstay]
  · rw [if_neg fun h => hcode h.2, if_neg hcode]
    dsimp only
    rw [if_pos List.length_nil, hhere.currentBlock]
    dsimp only
    rw [if_neg hcode, ← hhere.pos]

/-- Typing into the whole text is typing into the body of the line. -/
theorem insertIdx_line {front body rest : Codes} {eol : End} (hp : p ≤ body.length) :
    (front ++ ((body ++ eol.text) ++ rest)).insertIdx (front.length + p) code =
      front ++ ((body.insertIdx p code ++ eol.text) ++ rest) := by
  have hlen : p ≤ (body ++ eol.text).length := by
    rw [List.length_append]
    omega
  rw [insertIdx_append_right, insertIdx_append_left hlen, insertIdx_append_left hp]

section Typed

variable {body : Codes} {eol : End}

theorem addChar_typed (h : Here c before node after p)
    (hshape : Shaped c.document.blocks c.document.nextId) (hline : Line node.block body eol)
    (hp : p ≤ body.length) (hcode : code ≠ newline) (henc : Unicode.encode code ≠ none) :
    ∃ b, Line b (body.insertIdx p code) eol ∧
      Here (c.addChar code) before { node with block := b } after p ∧
      Shaped (c.addChar code).document.blocks (c.addChar code).document.nextId := by
  have hb := hline.addChar hp hcode henc
  have hupdate := @update_eq c.document before after node (·.addChar code (some p))
    h.blocks hshape.ids
  rw [addChar_here h, if_neg hcode, hupdate]
  refine ⟨_, hb, ⟨rfl, h.number, h.pos⟩, ?_⟩
  rw [h.blocks] at hshape
  refine hshape.replace ⟨_, _, hb⟩ (List.suffix_refl _) fun hafter => ?_
  rw [hb.getEnd, ← hline.getEnd]
  exact hshape.last hafter

theorem addNewline_typed (h : Here c before node after p)
    (hshape : Shaped c.document.blocks c.document.nextId) (hline : Line node.block body eol)
    (hp : p ≤ body.length) :
    ∃ left right, Line left (untilZero (body.take p)) .newline ∧
      Line right.block (untilZero (body.drop p)) eol ∧
      Here (c.addChar newline) before { node with block := left } (right :: after) p ∧
      Shaped (c.addChar newline).document.blocks (c.addChar newline).document.nextId := by
  rw [h.blocks] at hshape
  have hlast : after = [] → eol = .none := fun hafter => hline.getEnd ▸ hshape.last hafter
  obtain ⟨left, right, hleft, hright, heq⟩ := addNewline_eq h.blocks hline hp hlast
  rw [addChar_here h, if_pos rfl, addNewline, h.pos, h.number]
  dsimp only
  rw [heq]
  refine ⟨left, ⟨c.document.nextId, right⟩, hleft, hright, ⟨rfl, rfl, rfl⟩, ?_⟩
  have hnew := hshape.insert ⟨_, _, hright⟩ fun hafter => hright.getEnd.trans (hlast hafter)
  exact hnew.replace ⟨_, _, hleft⟩ (List.suffix_refl _) fun hnil => absurd hnil (List.cons_ne_nil _ _)

end Typed

theorem addChar_move (hstart : t.cursorStartPosition ≠ .documentBegin) :
    t.addChar code =
      ({ t with toBlockCursor := t.toBlockCursor.addChar code }.moveCursor .right).2 := by
  rw [TextCursor.addChar]
  exact if_pos hstart

/-- A character goes in at the index, and the cursor behind it. -/
theorem addChar_placed (h : Placed t.toBlockCursor i)
    (hshape : Shaped t.document.blocks t.document.nextId)
    (hstart : t.cursorStartPosition ≠ .documentBegin) (henc : Unicode.encode code ≠ none)
    (hzero : code = newline → ¬ t.InZero) :
    Shows (t.addChar code).toBlockCursor (t.document.getText.insertIdx i code) (i + 1) := by
  obtain ⟨before, node, after, p, hhere, hp, rfl⟩ := h
  obtain ⟨body, eol, hline⟩ := (hhere.blocks ▸ hshape).line
  rw [hline.lastPos] at hp
  have htext : t.document.getText.insertIdx ((textOf before).length + p) code =
      textOf before ++ ((body.insertIdx p code ++ eol.text) ++ textOf after) := by
    rw [hhere.getText, hline.text]
    exact insertIdx_line hp
  rw [addChar_move hstart]
  by_cases hcode : code = newline
  · subst hcode
    obtain ⟨left, right, hleft, hright, htyped, hshaped⟩ :=
      addNewline_typed hhere hshape hline hp
    have hfree : 0 ∉ body := by
      intro hmem
      refine hzero rfl ⟨node, hhere.currentBlock, ?_⟩
      rw [hline.text]
      exact List.mem_append_left _ hmem
    rw [untilZero_eq fun hmem => hfree (List.mem_of_mem_take hmem)] at hleft
    rw [untilZero_eq fun hmem => hfree (List.mem_of_mem_drop hmem)] at hright
    have hlen : (body.take p).length = p := List.length_take_of_le hp
    have hend : p = lastPos left := by rw [hleft.lastPos, hlen]
    have hmove := @moveRight_next { t with toBlockCursor := t.toBlockCursor.addChar newline }
      _ _ _ _ _ htyped hend
    rw [if_neg (by rw [hleft.getEnd]; decide)] at hmove
    refine Shows.of_move hshaped ?_ ?_
    · rw [htyped.getText, htext, insertIdx_eq_take_drop hp]
      simp [hleft.text, hright.text, End.text]
    · rw [hmove]
      refine ⟨_, right, after, 0, increment_next htyped hend, Nat.zero_le _, ?_⟩
      rw [textOf_append, List.length_append, textOf_cons, hleft.text, textOf_nil, List.append_nil,
        List.length_append, hlen]
      rfl
  · obtain ⟨b, hb, htyped, hshaped⟩ := addChar_typed hhere hshape hline hp hcode henc
    have hinside : p < lastPos b := by
      rw [hb.lastPos, List.length_insertIdx_of_le_length hp]
      exact Nat.lt_succ_of_le hp
    have hmove := @moveRight_inside { t with toBlockCursor := t.toBlockCursor.addChar code }
      _ _ _ _ htyped hinside
    refine Shows.of_move hshaped ?_ ⟨before, _, after, p + 1, hmove, hinside, Nat.add_assoc _ _ _⟩
    rw [htyped.getText, htext, hb.text]

/-- A code that has no encoding, and a newline into a line that holds a zero, leave
the text shorter than it should be. -/
theorem addChar_misses (h : Placed t.toBlockCursor i)
    (hshape : Shaped t.document.blocks t.document.nextId)
    (hstart : t.cursorStartPosition ≠ .documentBegin)
    (hbad : Unicode.encode code = none ∨ code = newline ∧ t.InZero) :
    (t.addChar code).document.getText.length ≤ t.document.getText.length := by
  obtain ⟨before, node, after, p, hhere, hp, rfl⟩ := h
  obtain ⟨body, eol, hline⟩ := (hhere.blocks ▸ hshape).line
  rw [hline.lastPos] at hp
  rw [addChar_move hstart, moveCursor_document]
  rcases hbad with henc | ⟨rfl, hzero⟩
  · have hcode : code ≠ newline := by
      rintro rfl
      exact absurd henc (by decide)
    rw [addChar_here hhere, if_neg hcode, update_eq hhere.blocks hshape.ids,
      Line.addChar_refused henc, hhere.getText]
    exact Nat.le_of_eq (congrArg List.length textOf_append)
  · obtain ⟨left, right, hleft, hright, htyped, _⟩ := addNewline_typed hhere hshape hline hp
    obtain ⟨other, hother, hmem⟩ := hzero
    obtain rfl : node = other := Option.some.inj (hhere.currentBlock.symm.trans hother)
    have hbody : 0 ∈ body := by
      rw [hline.text, List.mem_append] at hmem
      rcases hmem with hmem | hmem
      · exact hmem
      · cases eol with
        | newline => exact absurd hmem (by decide)
        | none => exact absurd hmem (by decide)
    have htake := @length_untilZero_le (body.take p)
    have hdrop := @length_untilZero_le (body.drop p)
    have hlen := congrArg List.length (List.take_append_drop p body)
    rw [List.length_append] at hlen
    have hcut : (untilZero (body.take p)).length + (untilZero (body.drop p)).length <
        body.length := by
      rw [← List.take_append_drop p body, List.mem_append] at hbody
      rcases hbody with hmem | hmem
      · have := length_untilZero_lt hmem
        omega
      · have := length_untilZero_lt hmem
        omega
    rw [htyped.getText, hhere.getText, textOf_cons]
    simp only [List.length_append, hleft.text, hright.text, hline.text, End.text,
      List.length_singleton]
    omega

/-! ## Deleting -/

/-- What comes next when an empty block is removed there. -/
def withoutNext (node : Node) : List Node → List Node
  | next :: after =>
      if next.block.isEmpty && node.block.getEnd == .none then after else next :: after
  | [] => []

theorem withoutNext_suffix : withoutNext node after <:+ after := by
  cases after with
  | nil => exact List.suffix_refl _
  | cons next after =>
      rw [withoutNext]
      split
      · exact List.suffix_cons _ _
      · exact List.suffix_refl _

theorem textOf_withoutNext : textOf (withoutNext node after) = textOf after := by
  cases after with
  | nil => rfl
  | cons next after =>
      rw [withoutNext]
      split
      · rename_i hempty
        rw [Bool.and_eq_true] at hempty
        rw [textOf_cons, TextBlock.isEmpty_iff.1 hempty.1, List.nil_append]
      · rfl

theorem withoutNext_last (hafter : after = [] → node.block.getEnd = .none)
    (h : withoutNext node after = []) : node.block.getEnd = .none := by
  cases after with
  | nil => exact hafter rfl
  | cons next after =>
      rw [withoutNext] at h
      split at h
      · rename_i hempty
        rw [Bool.and_eq_true, beq_iff_eq] at hempty
        exact hempty.2
      · exact absurd h (List.cons_ne_nil _ _)

theorem checkIfNextBlockEmpty_some {it : Nat} :
    c.checkIfNextBlockEmpty (some it) = (c.document.deref it).map fun next =>
      next.block.isEmpty && c.checkCurrentBlockNoNewLine := rfl

theorem removeNextIfEmpty_none : c.removeNextIfEmpty none = some c := rfl

theorem removeNextIfEmpty_eq (h : Here c before node after p)
    (hids : (c.document.blocks.map (·.id)).Nodup) :
    c.removeNextIfEmpty (after.head?.map (·.id)) =
      some { c with document :=
        { c.document with blocks := before ++ node :: withoutNext node after } } := by
  cases after with
  | nil =>
      rw [List.head?_nil, Option.map_none, removeNextIfEmpty_none, withoutNext, ← h.blocks]
  | cons next after =>
      have hsplit : c.document.blocks = (before ++ [node]) ++ next :: after := by
        rw [h.blocks]
        simp
      have hremove := removeBlock_eq hsplit hids
      rw [List.append_assoc, List.singleton_append] at hremove
      rw [List.head?_cons, Option.map_some, removeNextIfEmpty.eq_def, checkIfNextBlockEmpty_some,
        deref_eq hsplit hids, Option.map_some, h.checkCurrentBlockNoNewLine, withoutNext]
      cases next.block.isEmpty && node.block.getEnd == .none with
      | true =>
          dsimp only
          rw [hremove]
          rfl
      | false =>
          dsimp only
          rw [if_neg (by decide), ← h.blocks]

theorem checkIfBlockFirstAndEmpty_eq (h : Here c before node after p)
    (hids : (c.document.blocks.map (·.id)).Nodup) :
    c.checkIfBlockFirstAndEmpty node.id = (before.isEmpty && node.block.isEmpty) := by
  rw [checkIfBlockFirstAndEmpty, h.blocks]
  cases before with
  | nil => simp
  | cons first before =>
      rw [h.blocks] at hids
      have hne := (id_ne_of_nodup hids).1 first (by simp)
      simp [hne]

/-- The cursor's document, its blocks replaced. -/
def BlockCursor.withBlocks (c : BlockCursor) (blocks : List Node) : BlockCursor :=
  { c with document := { c.document with blocks := blocks } }

theorem Here.withBlocks {before' after' : List Node} {node' : Node}
    (h : Here c before node after p) (hlen : before'.length = before.length) :
    Here (c.withBlocks (before' ++ node' :: after')) before' node' after' p :=
  ⟨rfl, hlen ▸ h.number, h.pos⟩

theorem removeChar_eq (h : Here c before node after p)
    (hshape : Shaped c.document.blocks c.document.nextId) :
    c.removeChar =
      if before = [] ∧ (node.block.removeChar p).isEmpty then
        ((c.withBlocks (withoutNext node after)).removeNextIfEmpty
          (after.head?.map (·.id))).map fun c => (true, c)
      else some (true, c.withBlocks (before ++
        { node with block := node.block.removeChar p } :: withoutNext node after)) := by
  have hnext : c.document.blocks[before.length + 1]?.map (·.id) = after.head?.map (·.id) := by
    have hsplit : before ++ node :: after = (before ++ [node]) ++ after := by simp
    rw [h.blocks, hsplit, List.head?_eq_getElem?, List.getElem?_append_right (by simp)]
    simp
  let c₁ := c.withBlocks (before ++ node :: withoutNext node after)
  have hhere₁ : Here c₁ before node (withoutNext node after) p := h.withBlocks rfl
  have hids₁ : (c₁.document.blocks.map (·.id)).Nodup := by
    have hids := hshape.ids
    rw [h.blocks] at hids
    refine hids.sublist (List.Sublist.map _ ?_)
    exact (List.Sublist.refl _).append (withoutNext_suffix.sublist.cons_cons _)
  let node₂ : Node := { node with block := node.block.removeChar p }
  let c₂ := c.withBlocks (before ++ node₂ :: withoutNext node after)
  have hhere₂ : Here c₂ before node₂ (withoutNext node after) p := h.withBlocks rfl
  have hids₂ : (c₂.document.blocks.map (·.id)).Nodup := by
    rw [hhere₁.blocks] at hids₁
    rw [hhere₂.blocks]
    simpa using hids₁
  have hupdate : { c₁ with document := c₁.document.update node.id (·.removeChar p) } = c₂ := by
    rw [update_eq hhere₁.blocks hids₁]
    rfl
  let rest : BlockCursor → Option (Bool × BlockCursor) := fun c =>
    if c.checkIfBlockFirstAndEmpty node.id then
      ({ c with document := c.document.removeBlock node.id }.removeNextIfEmpty
        (after.head?.map Node.id)).bind fun c => some (true, c)
    else some (true, c)
  rw [removeChar, h.pos, h.number, h.currentBlock]
  dsimp only
  rw [hnext, removeNextIfEmpty_eq h hshape.ids]
  show rest { c₁ with document := c₁.document.update node.id (·.removeChar p) } = _
  rw [hupdate]
  show (if c₂.checkIfBlockFirstAndEmpty node₂.id then _ else _) = _
  rw [checkIfBlockFirstAndEmpty_eq hhere₂ hids₂]
  by_cases hfirst : before = [] ∧ (node.block.removeChar p).isEmpty
  · obtain ⟨rfl, hempty⟩ := hfirst
    have hremove : { c₂ with document := c₂.document.removeBlock node₂.id } =
        c.withBlocks (withoutNext node after) := by
      rw [removeBlock_eq hhere₂.blocks hids₂]
      rfl
    rw [if_pos (by simpa using hempty), if_pos ⟨rfl, hempty⟩, ← hremove]
    exact Option.map_eq_bind.symm
  · rw [if_neg (by simpa using hfirst), if_neg hfirst]

/-- The iterator of a block that is gone. -/
theorem removeNextIfEmpty_gone {it : Nat} (h : ∀ node ∈ c.document.blocks, node.id ≠ it) :
    c.removeNextIfEmpty (some it) = none := by
  rw [removeNextIfEmpty.eq_def, checkIfNextBlockEmpty_some, deref_eq_none h]
  rfl

/-- The block the iterator stands for is now the first. -/
theorem removeNextIfEmpty_first {next : Node} (h : Here c [] next after p)
    (hids : (c.document.blocks.map (·.id)).Nodup) :
    ∃ nodes, nodes <:+ next :: after ∧ textOf nodes = textOf (next :: after) ∧
      c.removeNextIfEmpty (some next.id) = some (c.withBlocks nodes) := by
  rw [removeNextIfEmpty.eq_def, checkIfNextBlockEmpty_some, deref_eq h.blocks hids,
    Option.map_some, h.checkCurrentBlockNoNewLine]
  by_cases hempty : next.block.isEmpty
  · have hnil := TextBlock.isEmpty_iff.1 hempty
    have hremove := removeBlock_eq h.blocks hids
    refine ⟨after, List.suffix_cons _ _, ?_, ?_⟩
    · rw [textOf_cons, hnil, List.nil_append]
    · rw [hempty, TextBlock.getEnd_of_nil hnil, withBlocks, ← List.nil_append after, ← hremove]
      rfl
  · refine ⟨next :: after, List.suffix_refl _, rfl, ?_⟩
    have hblocks : c.document.blocks = next :: after := h.blocks
    rw [Bool.eq_false_iff.2 hempty, withBlocks, ← hblocks]
    rfl

/-- At the beginning of what is left. -/
theorem shows_withBlocks {nodes : List Node} (hpos : c.pos = some 0)
    (hnumber : c.currentBlockNumber = some 0) (hshape : Shaped nodes c.document.nextId) :
    Shows (c.withBlocks nodes) (textOf nodes) 0 where
  shaped := hshape
  text := rfl
  place := by
    cases nodes with
    | nil =>
        refine Or.inl ⟨rfl, ?_, ?_, rfl⟩
        · exact congrArg (·.getD 0) hpos
        · exact congrArg (·.getD 0) hnumber
    | cons node nodes =>
        exact Or.inr ⟨[], node, nodes, 0, ⟨rfl, hnumber, hpos⟩, Nat.zero_le _, rfl⟩

/-- The deletion removes the next block and the first. -/
def Dangles (before : List Node) (node : Node) (after : List Node) : Prop :=
  before = [] ∧ node.block.text.length = 1 ∧ node.block.getEnd = .none ∧
    ∃ next rest, after = next :: rest ∧ next.block.isEmpty

/-- One character before the cursor, it is the first block that empties. -/
theorem emptiesFirst_iff (hblocks : c.document.blocks = before ++ node :: after)
    (habs : c.getAbsolutePosition = some ((textOf before).length + p + 1)) :
    c.EmptiesFirst ↔ (textOf before).length + p = 0 ∧ Dangles before node after := by
  rw [EmptiesFirst, habs, hblocks]
  constructor
  · intro h
    obtain ⟨a, b, rest, heq, hlen, hend, hempty, hone⟩ := h
    have hzero : (textOf before).length + p = 0 := by
      simpa using hone
    cases before with
    | nil =>
        obtain ⟨rfl, rfl⟩ := List.cons.inj heq
        exact ⟨hzero, rfl, hlen, hend, b, rest, rfl, hempty⟩
    | cons first before =>
        obtain ⟨rfl, _⟩ := List.cons.inj heq
        rw [TextBlock.length] at hlen
        rw [textOf_cons, List.length_append] at hzero
        omega
  · intro h
    obtain ⟨hzero, rfl, hlen, hend, next, rest, rfl, hempty⟩ := h
    exact ⟨node, next, rest, rfl, hlen, hend, hempty, by rw [hzero]⟩

theorem removeChar_dangles (h : Here c before node after p)
    (hshape : Shaped c.document.blocks c.document.nextId) (hlt : p < node.block.text.length)
    (hd : Dangles before node after) : c.removeChar = none := by
  obtain ⟨rfl, hlen, hend, next, rest, rfl, hempty⟩ := hd
  have hgone : (node.block.removeChar p).isEmpty := by
    rw [TextBlock.isEmpty_iff, TextBlock.removeChar_text hlt, ← List.length_eq_zero_iff,
      List.length_eraseIdx_of_lt hlt, hlen]
  have hids := hshape.ids
  rw [h.blocks, List.nil_append, List.map_cons, List.nodup_cons, List.map_cons,
    List.nodup_cons] at hids
  rw [removeChar_eq h hshape, if_pos ⟨rfl, hgone⟩, withoutNext, hempty, hend]
  rw [List.head?_cons, Option.map_some, removeNextIfEmpty_gone]
  · rfl
  · intro other hother heq
    exact hids.2.1 (heq ▸ List.mem_map_of_mem hother)

/-- The character behind the cursor goes, and the cursor stays. -/
theorem removeChar_shows (h : Here c before node after p)
    (hshape : Shaped c.document.blocks c.document.nextId) (hp : p ≤ lastPos node.block)
    (hlt : p < node.block.text.length) (hd : ¬ Dangles before node after) :
    ∃ c', c.removeChar = some (true, c') ∧
      Shows c' (c.document.getText.eraseIdx ((textOf before).length + p))
        ((textOf before).length + p) := by
  have hshape' := hshape
  rw [h.blocks] at hshape'
  obtain ⟨body, eol, hline⟩ := hshape'.line
  obtain ⟨body', eol', hline', hp', hopen⟩ := hline.removeChar (hline.lastPos ▸ hp) hlt
  have htext : c.document.getText.eraseIdx ((textOf before).length + p) =
      textOf before ++ ((node.block.removeChar p).text ++ textOf after) := by
    rw [h.getText, List.eraseIdx_append_of_length_le (Nat.le_add_right _ _),
      Nat.add_sub_cancel_left, List.eraseIdx_append_of_lt_length hlt,
      TextBlock.removeChar_text hlt]
  rw [removeChar_eq h hshape, htext]
  by_cases hfirst : before = [] ∧ (node.block.removeChar p).isEmpty
  · -- The first block goes too.
    obtain ⟨rfl, hgone⟩ := hfirst
    have hnil := TextBlock.isEmpty_iff.1 hgone
    have hlen : node.block.text.length = 1 ∧ p = 0 := by
      rw [TextBlock.removeChar_text hlt, ← List.length_eq_zero_iff,
        List.length_eraseIdx_of_lt hlt] at hnil
      omega
    obtain ⟨hlen, rfl⟩ := hlen
    rw [if_pos ⟨rfl, hgone⟩, hnil]
    have hrest : Shaped after c.document.nextId := hshape'.suffix (List.suffix_cons _ _)
    cases after with
    | nil => exact ⟨_, rfl, shows_withBlocks h.pos h.number hrest⟩
    | cons next rest =>
        have hkeep : withoutNext node (next :: rest) = next :: rest := by
          rw [withoutNext, if_neg]
          intro hempty
          rw [Bool.and_eq_true, beq_iff_eq] at hempty
          exact hd ⟨rfl, hlen, hempty.2, next, rest, rfl, hempty.1⟩
        rw [hkeep]
        have hhere : Here (c.withBlocks (next :: rest)) [] next rest 0 := ⟨rfl, h.number, h.pos⟩
        obtain ⟨nodes, hsuffix, htext', heq⟩ := removeNextIfEmpty_first hhere hrest.ids
        rw [List.head?_cons, Option.map_some, heq]
        refine ⟨_, rfl, ?_⟩
        rw [← htext']
        exact shows_withBlocks h.pos h.number (hrest.suffix hsuffix)
  · rw [if_neg hfirst]
    have hnode : Here (c.withBlocks (before ++ { node with block := node.block.removeChar p } ::
        withoutNext node after)) before _ _ p := h.withBlocks rfl
    refine ⟨_, rfl, ?_, ?_, Or.inr ⟨before, _, _, p, hnode, ?_, rfl⟩⟩
    · refine hshape'.replace ⟨_, _, hline'⟩ withoutNext_suffix fun hlast => ?_
      rw [hline'.getEnd]
      exact hopen (hline.getEnd ▸ withoutNext_last hshape'.last hlast)
    · rw [hnode.getText, textOf_withoutNext]
    · rw [hline'.lastPos]
      exact hp'

/-- Behind the last character of an open block there is nothing to delete. -/
theorem removeChar_nothing (h : Here c before node after node.block.text.length)
    (hshape : Shaped c.document.blocks c.document.nextId)
    (hne : (textOf before).length + node.block.text.length ≠ 0) :
    ∀ r, c.removeChar = some r → r.2.document.getText = c.document.getText := by
  have hsame : node.block.removeChar node.block.text.length = node.block := by
    rw [TextBlock.removeChar, Codes.removeChar, if_pos (Nat.lt_succ_self _)]
  have hfirst : ¬ (before = [] ∧ (node.block.removeChar node.block.text.length).isEmpty) := by
    intro hfirst
    obtain ⟨rfl, hempty⟩ := hfirst
    rw [hsame, TextBlock.isEmpty_iff] at hempty
    exact hne (by simp [hempty])
  intro r hr
  rw [removeChar_eq h hshape, if_neg hfirst, hsame] at hr
  obtain rfl := Option.some.inj hr
  rw [h.getText, ← @textOf_withoutNext after node]
  exact textOf_append

end MuditaOS.Gui

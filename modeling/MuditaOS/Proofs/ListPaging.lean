import MuditaOS.Gui.ListViewEngine
import MuditaOS.Lib.Run

/-!
# Pages inside the list

The start of the page stays inside the list while only the engine moves it. What takes it out is
a rebuild in a list that has become shorter: the start is repaired where it is just behind the
last record, and nowhere else.
-/

namespace MuditaOS.ListView

open Lib ListViewEngine

/-! ## What is promised -/

/-- The difference and the quotient exist; the start is in the list, and of a list with records
one is asked for at the least. -/
def Fine : Effect → Prop
  | .subtract a b => b ≤ a
  | .divide divisor => divisor ≠ 0
  | .requestRecords offset limit startIndex elementsCount =>
      startIndex ≤ elementsCount ∧
        (elementsCount ≠ 0 → offset < elementsCount ∧ limit ≠ 0)

def StaysInside (list : ListViewEngine) (called : Call × Answers) : Prop :=
  ∀ effect ∈ (list.call called).1, Fine effect

variable {list : ListViewEngine} {answers : Answers}

/-! ## Requests -/

theorem requestPage_fine_iff :
    (∀ effect ∈ list.requestPage answers, Fine effect) ↔
      list.startIndex ≤ list.elementsCount ∧
        (list.elementsCount ≠ 0 →
          list.startIndex < list.elementsCount ∧ list.minLimit answers ≠ 0) := by
  simp only [requestPage, calculateLimit, requestRecords]
  split
  · simp [Fine]
  · rename_i hlimit
    simp only [List.cons_append, List.nil_append, List.forall_mem_cons, Fine]
    grind

/-- What has to hold for a page to be turned forward: of a list whose end is not reached some
records are in front of it, and the page is no longer than the list. -/
def NextClear (list : ListViewEngine) (answers : Answers) : Prop :=
  if list.elementsCount ≤ list.startIndex + list.currentPageSize then
    list.boundaries = .continuous → list.elementsCount ≠ 0 → list.minLimit answers ≠ 0
  else
    list.currentPageSize ≤ list.elementsCount ∧ list.startIndex < list.elementsCount ∧
      list.minLimit answers ≠ 0

/-- Backwards over the start of a list with fixed pages, the page is not empty. -/
def PreviousClear (list : ListViewEngine) (answers : Answers) : Prop :=
  if list.startIndex = 0 then
    list.boundaries = .continuous →
      (list.currentPageSize < list.elementsCount → list.fetchType = .fixed →
        list.currentPageSize ≠ 0) ∧
      (list.elementsCount ≠ 0 → list.minLimit answers ≠ 0)
  else list.minLimit answers ≠ 0

theorem next_fine_iff (h : list.startIndex ≤ list.elementsCount) :
    (∀ effect ∈ (list.requestNextPage answers).2.1, Fine effect) ↔ NextClear list answers := by
  rw [requestNextPage, NextClear]
  by_cases hend : list.elementsCount ≤ list.startIndex + list.currentPageSize
  · cases hboundaries : list.boundaries with
    | continuous =>
        simp only [hend, and_self, if_true]
        rw [requestPage_fine_iff]
        simp only [scroll, minLimit, forall_const]
        grind
    | fixed => simp [hend]
  · simp only [hend, false_and, if_false, List.forall_mem_append, requestPage_fine_iff]
    have hminLimit : ∀ start, ({ list with startIndex := start }.scroll .bottom).minLimit answers =
        list.minLimit answers := fun _ => rfl
    by_cases hfits : list.startIndex ≤ list.elementsCount - list.currentPageSize
    · simp only [if_pos hfits, hminLimit, List.forall_mem_singleton, Fine]
      simp only [scroll]
      grind
    · have hsame : list.elementsCount - (list.elementsCount - list.startIndex) =
          list.startIndex := by grind
      simp only [if_neg hfits, hminLimit, hsame, List.forall_mem_cons, Fine]
      simp only [scroll]
      grind

theorem min_eq (a b : UInt32) : min a b = if a ≤ b then a else b := rfl

theorem limit_top_le (list : ListViewEngine) (answers : Answers) :
    (list.calculateLimit answers .top).2 ≤ list.startIndex := by
  simp only [calculateLimit, min_eq]
  grind

theorem limit_top_ne_zero_iff (list : ListViewEngine) (answers : Answers)
    (h : list.startIndex ≠ 0) :
    (list.calculateLimit answers .top).2 ≠ 0 ↔ list.minLimit answers ≠ 0 := by
  simp only [calculateLimit, min_eq]
  grind

/-- The rest of the records behind the full pages, or a full page. -/
theorem fixedFill_pos_le (count : UInt32) {size : UInt32} (h : size ≠ 0) :
    (if count % size ≠ 0 then count % size else size) ≠ 0 ∧
      (if count % size ≠ 0 then count % size else size) ≤ size := by
  have hlt : count % size < size := UInt32.mod_lt _ (by grind)
  grind

theorem previous_fine_iff (h : list.startIndex ≤ list.elementsCount) :
    (∀ effect ∈ (list.requestPreviousPage answers).2.1, Fine effect) ↔
      PreviousClear list answers := by
  rw [requestPreviousPage, PreviousClear]
  by_cases hstart : list.startIndex = 0
  · by_cases hboundaries : list.boundaries = .continuous
    · have hend : list.elementsCount ≠ 0 → ((({ list with startIndex := list.elementsCount } :
          ListViewEngine).calculateLimit answers .top).2 ≠ 0 ↔ list.minLimit answers ≠ 0) :=
        limit_top_ne_zero_iff { list with startIndex := list.elementsCount } answers
      have hle : (({ list with startIndex := list.elementsCount } :
          ListViewEngine).calculateLimit answers .top).2 ≤ list.elementsCount :=
        limit_top_le { list with startIndex := list.elementsCount } answers
      rw [if_pos ⟨hstart, hboundaries⟩, if_pos hstart, forall_prop_of_true hboundaries]
      dsimp only
      generalize (({ list with startIndex := list.elementsCount } :
        ListViewEngine).calculateLimit answers .top).2 = limit at hend hle ⊢
      by_cases hfixed : list.currentPageSize < list.elementsCount ∧ list.fetchType = .fixed
      · simp only [if_pos hfixed, requestRecords, List.cons_append, List.nil_append,
          List.forall_mem_cons, Fine, scroll]
        by_cases hempty : list.currentPageSize = 0
        · grind
        · have hfill := fixedFill_pos_le list.elementsCount hempty
          generalize (if list.elementsCount % list.currentPageSize ≠ 0 then
            list.elementsCount % list.currentPageSize else list.currentPageSize) = fill at hfill ⊢
          grind
      · simp only [if_neg hfixed, requestRecords, List.nil_append, List.forall_mem_singleton, Fine,
          scroll]
        grind
    · have hfixed : list.boundaries = .fixed := by cases hb : list.boundaries <;> simp_all
      simp [hstart, hfixed]
  · have hle : (list.calculateLimit answers .top).2 ≤ list.startIndex := limit_top_le list answers
    simp only [hstart, false_and, if_false, requestRecords, List.forall_mem_singleton, Fine,
      ← limit_top_ne_zero_iff list answers hstart, scroll]
    grind

/-! ## Rebuilding -/

/-- Where the page starts when it is rebuilt. -/
def newStart (list : ListViewEngine) (answers : Answers) (rebuildType : RebuildType)
    (dataOffset : UInt32) : UInt32 :=
  match rebuildType with
  | .full =>
      match list.orientation with
      | .topBottom => 0
      | .bottomTop => answers.recordsCount
  | .onOffset => if dataOffset < answers.recordsCount then dataOffset else list.startIndex
  | .inPlace => list.startIndex
  | .onPageElement =>
      dataOffset / calculateMaxItemsOnPage answers * calculateMaxItemsOnPage answers

def newCount (answers : Answers) : UInt32 := answers.preparedCount.getD answers.recordsCount

/-- What has to hold for a page to be rebuilt: it starts in the list as that is now, and there is
room for an item. -/
def RebuildClear (list : ListViewEngine) (answers : Answers) (rebuildType : RebuildType)
    (dataOffset : UInt32) (forceRebuild : Bool) : Prop :=
  list.pageLoaded ∨ forceRebuild →
    (rebuildType = .onPageElement → calculateMaxItemsOnPage answers ≠ 0) ∧
      newStart list answers rebuildType dataOffset ≤ newCount answers ∧
      (newCount answers ≠ 0 → list.minLimit answers ≠ 0)

/-- The list in which a rebuild requests records. -/
structure IsSetUp (list : ListViewEngine) (answers : Answers) (rebuildType : RebuildType)
    (dataOffset : UInt32) (ready : ListViewEngine) : Prop where
  start : ready.startIndex = newStart list answers rebuildType dataOffset
  count : ready.elementsCount = newCount answers
  minLimit : ready.minLimit answers = list.minLimit answers

theorem isSetUp_setup (list : ListViewEngine) (answers : Answers) (rebuildType : RebuildType)
    (dataOffset : UInt32) :
    IsSetUp list answers rebuildType dataOffset
      ((list.setElementsCount answers.recordsCount).setup answers rebuildType dataOffset).2 := by
  simp only [setup]
  cases rebuildType with
  | full =>
      cases horientation : list.orientation <;> cases hprepared : answers.preparedCount <;>
        constructor <;>
        simp [setElementsCount, prepareFullRebuild, setStartIndex, newStart, newCount, minLimit,
          horientation, hprepared]
  | inPlace =>
      cases hfocus : answers.focusItemIndex <;> cases hprepared : answers.preparedCount <;>
        constructor <;>
        simp [setElementsCount, prepareInPlaceRebuild, newStart, newCount, minLimit, hfocus,
          hprepared]
  | onPageElement =>
      cases hprepared : answers.preparedCount <;> constructor <;>
        simp [setElementsCount, prepareOnPageElementRebuild, newStart, newCount, minLimit,
          hprepared]
  | onOffset =>
      by_cases hoffset : dataOffset < answers.recordsCount <;>
        cases hprepared : answers.preparedCount <;> constructor <;>
        simp [setElementsCount, prepareOnOffsetRebuild, newStart, newCount, minLimit, hoffset,
          hprepared]

theorem setup_fine_iff {rebuildType : RebuildType} {dataOffset : UInt32} :
    (∀ effect ∈ (list.setup answers rebuildType dataOffset).1, Fine effect) ↔
      (rebuildType = .onPageElement → calculateMaxItemsOnPage answers ≠ 0) := by
  cases rebuildType <;> simp [setup, prepareOnPageElementRebuild, Fine]

/-- Behind the last record the previous page is requested, else the one that starts here. -/
theorem request_fine_iff {ready : ListViewEngine} :
    (∀ effect ∈ (if ready.startIndex ≠ 0 ∧ ready.startIndex = ready.elementsCount then
      (ready.requestPreviousPage answers).2.1 else ready.requestPage answers), Fine effect) ↔
      ready.startIndex ≤ ready.elementsCount ∧
        (ready.elementsCount ≠ 0 → ready.minLimit answers ≠ 0) := by
  split
  · rename_i hend
    rw [previous_fine_iff (by grind), PreviousClear, if_neg hend.1]
    grind
  · rw [requestPage_fine_iff]
    grind

theorem rebuild_fine_iff {rebuildType : RebuildType} {dataOffset : UInt32} {force : Bool} :
    (∀ effect ∈ (list.rebuildList answers rebuildType dataOffset force).1, Fine effect) ↔
      RebuildClear list answers rebuildType dataOffset force := by
  rw [rebuildList, RebuildClear]
  by_cases hnow : list.pageLoaded ∨ force
  · rw [if_pos hnow, forall_prop_of_true hnow]
    have hready := isSetUp_setup list answers rebuildType dataOffset
    rw [← hready.start, ← hready.count, ← hready.minLimit, ← request_fine_iff, ← setup_fine_iff,
      ← List.forall_mem_append]
    dsimp only
    split <;> rfl
  · rw [if_neg hnow]
    simp [hnow]

/-! ## Runs -/

/-- The invariant: the page starts in the list, or behind its last record. -/
def Inside (list : ListViewEngine) : Prop := list.startIndex ≤ list.elementsCount

/-- A page with room on it is filled from the start of the list. -/
def FirstPageFilled (list : ListViewEngine) (answers : Answers) : Prop :=
  ((list.orientation = .topBottom ∧ list.direction = .top ∧ list.startIndex = 0) ∨
      (list.orientation = .bottomTop ∧ list.direction = .bottom ∧
        list.startIndex + list.currentPageSize = list.elementsCount)) ∧
    answers.minimalItemSpaceRequired ≤ answers.primarySizeLeft

/-- What has to hold in front of a call. -/
def Clear (list : ListViewEngine) (called : Call × Answers) : Prop :=
  let (call, answers) := called
  match call with
  | .rebuildList rebuildType dataOffset forceRebuild =>
      RebuildClear list answers rebuildType dataOffset forceRebuild
  | .requestNextPage => NextClear list answers
  | .requestPreviousPage => PreviousClear list answers
  | .showPage _ => True
  | .serveRebuildRequest => ∀ request, list.rebuildRequests.getLast? = some request →
      RebuildClear list answers request.1 request.2 false
  | .fillFirstPage => FirstPageFilled list answers → RebuildClear list answers .full 0 false

theorem inside_previous (h : Inside list) : Inside (list.requestPreviousPage answers).2.2 := by
  rw [requestPreviousPage]
  split
  · exact UInt32.le_refl _
  · split <;> exact h

theorem inside_next (h : Inside list) (hclear : NextClear list answers) :
    Inside (list.requestNextPage answers).2.2 := by
  rw [Inside] at h
  rw [requestNextPage]
  rw [NextClear] at hclear
  split
  · exact UInt32.zero_le
  · split
    · exact h
    · rename_i hcontinuous hfixed
      have hend : ¬ list.elementsCount ≤ list.startIndex + list.currentPageSize := by
        intro hend
        cases hboundaries : list.boundaries <;> simp_all
      rw [if_neg hend] at hclear
      simp only [Inside, scroll]
      split <;> grind

theorem inside_rebuild {rebuildType : RebuildType} {dataOffset : UInt32} {force : Bool}
    (h : Inside list) (hclear : RebuildClear list answers rebuildType dataOffset force) :
    Inside (list.rebuildList answers rebuildType dataOffset force).2 := by
  rw [rebuildList]
  by_cases hnow : list.pageLoaded ∨ force
  · rw [if_pos hnow]
    have hready := isSetUp_setup list answers rebuildType dataOffset
    have hinside : Inside ((list.setElementsCount answers.recordsCount).setup answers rebuildType
        dataOffset).2 := by
      rw [Inside, hready.start, hready.count]
      exact (hclear hnow).2.1
    dsimp only
    split
    · exact inside_previous hinside
    · exact hinside
  · rwa [if_neg hnow]

theorem inside_show {items : Nat} (h : Inside list) : Inside (list.showPage items) := by
  rw [Inside] at h
  simp only [showPage, addItemsOnPage, recalculateStartIndex, Inside]
  cases list.direction <;> grind

theorem inside_call {called : Call × Answers} (h : Inside list) (hclear : Clear list called) :
    Inside (list.call called).2 := by
  obtain ⟨call, answers⟩ := called
  cases call with
  | rebuildList rebuildType dataOffset forceRebuild => exact inside_rebuild h hclear
  | requestNextPage => exact inside_next h hclear
  | requestPreviousPage => exact inside_previous h
  | showPage items => exact inside_show h
  | serveRebuildRequest =>
      simp only [ListViewEngine.call, serveRebuildRequest]
      cases hlast : list.rebuildRequests.getLast? with
      | none => exact h
      | some request => exact inside_rebuild h (hclear request hlast)
  | fillFirstPage =>
      simp only [ListViewEngine.call, fillFirstPage]
      split
      · rename_i hfills
        exact inside_rebuild h (hclear hfills)
      · exact h

theorem staysInside_iff_clear {called : Call × Answers} (h : Inside list) :
    StaysInside list called ↔ Clear list called := by
  obtain ⟨call, answers⟩ := called
  cases call with
  | rebuildList rebuildType dataOffset forceRebuild => exact rebuild_fine_iff
  | requestNextPage => exact next_fine_iff h
  | requestPreviousPage => exact previous_fine_iff h
  | showPage items => exact iff_of_true (fun _ hmem => absurd hmem List.not_mem_nil) trivial
  | serveRebuildRequest =>
      simp only [StaysInside, Clear, ListViewEngine.call, serveRebuildRequest]
      cases hlast : list.rebuildRequests.getLast? with
      | none => simp
      | some request =>
          simp only [Option.some.injEq, forall_eq']
          exact rebuild_fine_iff
  | fillFirstPage =>
      simp only [StaysInside, Clear, ListViewEngine.call, fillFirstPage]
      split
      · rename_i hfills
        have hfilled : FirstPageFilled list answers := hfills
        rw [forall_prop_of_true hfilled]
        exact rebuild_fine_iff
      · rename_i hfills
        exact iff_of_true (fun _ hmem => absurd hmem List.not_mem_nil) fun h => absurd h hfills

/-- In a run from the start, the pages stay inside the list exactly if no call moves the start
behind the records that are left, asks for an empty page, or divides by zero. -/
theorem stays_inside_iff (boundaries : Boundaries) (orientation : Orientation)
    (fetchType : FetchType) (calls : List (Call × Answers)) :
    EveryStep StaysInside (fun list called => (list.call called).2)
        (init boundaries orientation fetchType) calls ↔
      EveryStep Clear (fun list called => (list.call called).2)
        (init boundaries orientation fetchType) calls :=
  everyStep_congr (fun list _ (h : Inside list) => staysInside_iff_clear h)
    (fun _ _ h hclear => inside_call h hclear) UInt32.zero_le

/-- Ten records with three on a page; on the third page all but four are removed, and the page
is rebuilt in its place. -/
theorem shrunk_behind_page :
    let answers (count : UInt32) : Answers := ⟨300, 0, 100, by decide, count, none, none⟩
    ¬ EveryStep StaysInside (fun list called => (list.call called).2)
      (init .fixed .topBottom .filled)
      [(.rebuildList .full 0 false, answers 10), (.showPage 3, answers 10),
        (.requestNextPage, answers 10), (.showPage 3, answers 10),
        (.requestNextPage, answers 10), (.showPage 3, answers 10),
        (.rebuildList .inPlace 0 false, answers 4)] := by
  intro answers h
  obtain ⟨-, -, -, -, -, -, hlast, -⟩ := h
  have hwraps : (6 : UInt32) ≤ 4 := hlast (.subtract 4 6) (by decide)
  exact absurd hwraps (by decide)

end MuditaOS.ListView

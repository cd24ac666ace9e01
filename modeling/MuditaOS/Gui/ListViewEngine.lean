import Mathlib.Data.UInt

/-!
# The pages of a list

A transcription of `ListViewEngine.cpp`, without the drawing, the callbacks that take what they
are given, and the rendering of the full list, which is for one kind of scroll bar. What the
provider and the body answer is an argument of each call. A function also returns the requests
for records that it makes, and the subtractions and divisions that the sizes may be too small
for.

A provider may answer a request before it returns, and its answer draws the page. So the parts
of `refresh` in front of, and behind, what may request records are calls of their own.
-/

namespace MuditaOS.ListView

inductive Direction where
  | top
  | bottom
  deriving DecidableEq, Repr

inductive RebuildType where
  | full
  | inPlace
  | onPageElement
  | onOffset
  deriving DecidableEq, Repr

inductive FetchType where
  | filled
  | fixed
  deriving DecidableEq, Repr

inductive Orientation where
  | topBottom
  | bottomTop
  deriving DecidableEq, Repr

inductive Boundaries where
  | fixed
  | continuous
  deriving DecidableEq, Repr

/-- All numbers are `unsigned`, of 32 bits. -/
def nPos : UInt32 := 4294967295

structure ListViewEngine where
  startIndex : UInt32
  elementsCount : UInt32
  currentPageSize : UInt32
  storedFocusIndex : UInt32
  focusOnLastItem : Bool
  pageLoaded : Bool
  /-- The last one is the next to be served. -/
  rebuildRequests : List (RebuildType × UInt32)
  lastRebuildRequest : RebuildType × UInt32
  boundaries : Boundaries
  direction : Direction
  orientation : Orientation
  fetchType : FetchType
  deriving DecidableEq, Repr

/-- What the body and the provider answer to a call. -/
structure Answers where
  primarySize : UInt32
  primarySizeLeft : UInt32
  minimalItemSpaceRequired : UInt32
  /-- As `calculateMaxItemsOnPage` asserts. -/
  spaceRequired : minimalItemSpaceRequired ≠ 0
  recordsCount : UInt32
  /-- The count after `prepareRebuildCallback`, if there is one. -/
  preparedCount : Option UInt32
  /-- Of the body, unless it is empty. -/
  focusItemIndex : Option UInt32

/-- What may go wrong in a call. -/
inductive Effect where
  | subtract (a b : UInt32)
  | divide (divisor : UInt32)
  /-- With the start of the page and the count at this time. -/
  | requestRecords (offset limit startIndex elementsCount : UInt32)
  deriving DecidableEq, Repr

namespace ListViewEngine

def init (boundaries : Boundaries) (orientation : Orientation) (fetchType : FetchType) :
    ListViewEngine where
  startIndex := 0
  elementsCount := nPos
  currentPageSize := 0
  storedFocusIndex := nPos
  focusOnLastItem := false
  pageLoaded := true
  rebuildRequests := []
  lastRebuildRequest := (.full, 0)
  boundaries := boundaries
  direction := .bottom
  orientation := orientation
  fetchType := fetchType

variable (list : ListViewEngine) (answers : Answers)

def isEmpty : Bool := list.elementsCount = 0

def setElementsCount (count : UInt32) : ListViewEngine := { list with elementsCount := count }

/-- The index of the body, counted from the other end of a page that is filled upwards. -/
def getFocusItemIndex (index : UInt32) : UInt32 :=
  match list.direction with
  | .top =>
      let position := list.currentPageSize - 1 - index
      if position < 2147483648 then position else 0 - position
  | .bottom => index

def setStartIndex : ListViewEngine :=
  match list.orientation with
  | .topBottom => { list with startIndex := 0 }
  | .bottomTop => { list with startIndex := list.elementsCount }

def recalculateStartIndex : ListViewEngine :=
  match list.direction with
  | .top =>
      { list with
        startIndex :=
          if list.startIndex < list.currentPageSize then 0
          else list.startIndex - list.currentPageSize }
  | .bottom => list

def calculateMaxItemsOnPage : UInt32 := answers.primarySize / answers.minimalItemSpaceRequired

def minLimit : UInt32 := max (2 * list.currentPageSize) (calculateMaxItemsOnPage answers)

def calculateLimit (value : Direction) : List Effect × UInt32 :=
  match value with
  | .bottom =>
      if list.minLimit answers + list.startIndex ≤ list.elementsCount then
        ([], list.minLimit answers)
      else
        ([.subtract list.elementsCount list.startIndex], list.elementsCount - list.startIndex)
  | .top => ([], min (list.minLimit answers) list.startIndex)

/-- `requestRecords` of the provider. -/
def requestRecords (offset limit : UInt32) : List Effect :=
  [.requestRecords offset limit list.startIndex list.elementsCount]

/-- `requestRecords` with the start of the page and the limit in direction of the bottom. -/
def requestPage : List Effect :=
  let (effects, limit) := list.calculateLimit answers .bottom
  effects ++ list.requestRecords list.startIndex limit

/-! ## Scrolling -/

def scroll (direction : Direction) : ListViewEngine :=
  { list with
    direction := direction
    pageLoaded := false
    storedFocusIndex := nPos }

def requestNextPage : Bool × List Effect × ListViewEngine :=
  if list.elementsCount ≤ list.startIndex + list.currentPageSize ∧
      list.boundaries = .continuous then
    let list := { list with startIndex := 0 }.scroll .bottom
    (true, list.requestPage answers, list)
  else if list.elementsCount ≤ list.startIndex + list.currentPageSize ∧
      list.boundaries = .fixed then
    (false, [], list)
  else
    let (effects, startIndex) :=
      if list.startIndex ≤ list.elementsCount - list.currentPageSize then
        ([.subtract list.elementsCount list.currentPageSize],
          list.startIndex + list.currentPageSize)
      else
        ([.subtract list.elementsCount list.currentPageSize,
          .subtract list.elementsCount list.startIndex,
          .subtract list.elementsCount (list.elementsCount - list.startIndex)],
          list.elementsCount - (list.elementsCount - list.startIndex))
    let list := { list with startIndex }.scroll .bottom
    (true, effects ++ list.requestPage answers, list)

def requestPreviousPage : Bool × List Effect × ListViewEngine :=
  if list.startIndex = 0 ∧ list.boundaries = .continuous then
    let list := { list with startIndex := list.elementsCount }
    let limit := (list.calculateLimit answers .top).2
    let (effects, topFetchIndex) :=
      if list.currentPageSize < list.elementsCount ∧ list.fetchType = .fixed then
        let calculateFixedFill : UInt32 :=
          if list.elementsCount % list.currentPageSize ≠ (0 : UInt32) then
            list.elementsCount % list.currentPageSize
          else list.currentPageSize
        ([Effect.divide list.currentPageSize], list.elementsCount - calculateFixedFill)
      else ([], list.elementsCount - limit)
    let list := list.scroll .top
    (true, effects ++ list.requestRecords topFetchIndex limit, list)
  else if list.startIndex = 0 ∧ list.boundaries = .fixed then (false, [], list)
  else
    let limit := (list.calculateLimit answers .top).2
    let topFetchIndex := if list.startIndex < limit then 0 else list.startIndex - limit
    let list := list.scroll .top
    (true, list.requestRecords topFetchIndex limit, list)

/-! ## Rebuilding -/

def prepareFullRebuild : ListViewEngine := { list.setStartIndex with storedFocusIndex := nPos }

def prepareOnOffsetRebuild (dataOffset : UInt32) : ListViewEngine :=
  if dataOffset < list.elementsCount then
    { list with
      startIndex := dataOffset
      storedFocusIndex := nPos }
  else list

def prepareInPlaceRebuild : ListViewEngine :=
  match answers.focusItemIndex with
  | some index => { list with storedFocusIndex := list.getFocusItemIndex index }
  | none => list

def prepareOnPageElementRebuild (dataOffset : UInt32) : List Effect × ListViewEngine :=
  let maxItemsOnPage := calculateMaxItemsOnPage answers
  ([.divide maxItemsOnPage],
    { list with
      startIndex := dataOffset / maxItemsOnPage * maxItemsOnPage
      storedFocusIndex := dataOffset % maxItemsOnPage })

def setup (rebuildType : RebuildType) (dataOffset : UInt32) : List Effect × ListViewEngine :=
  let (effects, list) :=
    match rebuildType with
    | .full => ([], list.prepareFullRebuild)
    | .onOffset => ([], list.prepareOnOffsetRebuild dataOffset)
    | .inPlace => ([], list.prepareInPlaceRebuild answers)
    | .onPageElement => list.prepareOnPageElementRebuild answers dataOffset
  let list :=
    match answers.preparedCount with
    | some count => list.setElementsCount count
    | none => list
  (effects,
    { list with
      lastRebuildRequest := (rebuildType, dataOffset)
      direction := .bottom })

def rebuildList (rebuildType : RebuildType) (dataOffset : UInt32) (forceRebuild : Bool) :
    List Effect × ListViewEngine :=
  if list.pageLoaded ∨ forceRebuild then
    let list := list.setElementsCount answers.recordsCount
    let (effects, list) := list.setup answers rebuildType dataOffset
    if list.startIndex ≠ 0 ∧ list.startIndex = list.elementsCount then
      let (_, requested, list) := list.requestPreviousPage answers
      (effects ++ requested, list)
    else (effects ++ list.requestPage answers, list)
  else
    ([], { list with rebuildRequests := (rebuildType, dataOffset) :: list.rebuildRequests })

/-! ## Drawing -/

/-- As many items as the provider has and the body has room for, a number that is counted in an
`unsigned`. -/
def addItemsOnPage (items : Nat) : ListViewEngine :=
  { list with currentPageSize := items.toUInt32 }.recalculateStartIndex

/-- `refresh` up to the look at the queue. -/
def showPage (items : Nat) : ListViewEngine :=
  { list.addItemsOnPage items with
    focusOnLastItem := false
    pageLoaded := true }

/-- The queued request that `refresh` serves. -/
def serveRebuildRequest : List Effect × ListViewEngine :=
  match list.rebuildRequests.getLast? with
  | some (rebuildType, dataOffset) =>
      { list with rebuildRequests := list.rebuildRequests.dropLast }.rebuildList answers
        rebuildType dataOffset false
  | none => ([], list)

def fillFirstPage : List Effect × ListViewEngine :=
  if ((list.orientation = .topBottom ∧ list.direction = .top ∧ list.startIndex = 0) ∨
      (list.orientation = .bottomTop ∧ list.direction = .bottom ∧
        list.startIndex + list.currentPageSize = list.elementsCount)) ∧
      answers.minimalItemSpaceRequired ≤ answers.primarySizeLeft then
    { list with focusOnLastItem := true }.rebuildList answers .full 0 false
  else ([], list)

end ListViewEngine

/-! ## Calls -/

inductive Call where
  | rebuildList (rebuildType : RebuildType) (dataOffset : UInt32) (forceRebuild : Bool)
  | requestNextPage
  | requestPreviousPage
  | showPage (items : Nat)
  | serveRebuildRequest
  | fillFirstPage

namespace Call

/-- The calls that make up a `refresh` whose requests are answered later. -/
def refresh (items : Nat) : List Call := [.showPage items, .serveRebuildRequest, .fillFirstPage]

end Call

def ListViewEngine.call (list : ListViewEngine) (called : Call × Answers) :
    List Effect × ListViewEngine :=
  let (call, answers) := called
  match call with
  | .rebuildList rebuildType dataOffset forceRebuild =>
      list.rebuildList answers rebuildType dataOffset forceRebuild
  | .requestNextPage => (list.requestNextPage answers).2
  | .requestPreviousPage => (list.requestPreviousPage answers).2
  | .showPage items => ([], list.showPage items)
  | .serveRebuildRequest => list.serveRebuildRequest answers
  | .fillFirstPage => list.fillFirstPage answers

end MuditaOS.ListView

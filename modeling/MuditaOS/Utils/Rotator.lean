import MuditaOS.Lib.Numeral
import MuditaOS.Lib.Search

/-!
# Rotating files

A transcription of `Rotator.hpp`, with what it uses of `std::filesystem`: a directory maps
paths to contents, and notes what a `rename` overwrites. Which calls fail comes in from
outside; a call that fails changes nothing. The sizes are those of a `size_t` of 32 bits,
which `getRotatedFilePath` takes for an `int`.
-/

namespace MuditaOS.Utils

open MuditaOS.Lib

abbrev FilePath := List UInt8

structure Directory (α : Type*) where
  files : FilePath → Option α
  overwritten : List α := []

/-- Which calls fail. -/
structure Faults where
  existsFails : FilePath → Bool
  removeFails : FilePath → Bool
  renameFails : FilePath → FilePath → Bool

def Faults.none : Faults := ⟨fun _ => false, fun _ => false, fun _ _ => false⟩

namespace Directory

variable {α : Type*} (faults : Faults) (dir : Directory α)

/-- Nothing is returned where an error code is set. -/
def «exists» (path : FilePath) : Option Bool :=
  if faults.existsFails path then none else some (dir.files path).isSome

def remove (path : FilePath) : Option (Directory α) :=
  if faults.removeFails path then none
  else some { dir with files := fun p => if p = path then none else dir.files p }

def rename (src dest : FilePath) : Option (Directory α) :=
  if faults.renameFails src dest then none
  else
    match dir.files src with
    | none => none
    | some content =>
        some
          { files := fun p =>
              if p = dest then some content else if p = src then none else dir.files p
            overwritten :=
              dir.overwritten ++ if dest = src then [] else (dir.files dest).toList }

variable {faults dir} {path src dest p : FilePath} {dir' : Directory α}

theorem exists_eq_some {b : Bool} (h : dir.exists faults path = some b) :
    (dir.files path).isSome = b := by
  rw [«exists»] at h
  split at h
  · cases h
  · exact Option.some.inj h

theorem remove_eq_some (h : dir.remove faults path = some dir') :
    (∀ p, dir'.files p = if p = path then none else dir.files p) ∧
      dir'.overwritten = dir.overwritten := by
  rw [remove] at h
  split at h
  · cases h
  · obtain rfl := Option.some.inj h
    exact ⟨fun _ => rfl, rfl⟩

theorem rename_eq_some (h : dir.rename faults src dest = some dir') :
    (dir.files src).isSome ∧
      (∀ p, dir'.files p =
        if p = dest then dir.files src else if p = src then none else dir.files p) ∧
      dir'.overwritten =
        dir.overwritten ++ if dest = src then [] else (dir.files dest).toList := by
  rw [rename] at h
  split at h
  · cases h
  · cases hcontent : dir.files src with
    | none => rw [hcontent] at h; cases h
    | some content =>
        rw [hcontent] at h
        obtain rfl := Option.some.inj h
        exact ⟨rfl, fun _ => rfl, rfl⟩

end Directory

namespace Rotator

def dot : UInt8 := 0x2E

def slash : UInt8 := 0x2F

/-- The file name's part of a path. -/
def filename (path : FilePath) : FilePath := (path.reverse.takeWhile (· ≠ slash)).reverse

/-- The length of the extension of a path, from the last dot on, unless that comes first. -/
def extensionLength (path : FilePath) : Nat :=
  let name := filename path
  if name.length ≤ 2 ∧ name.head? = some dot then 0
  else
    match rfind [dot] name none with
    | none => 0
    | some pos => if pos = 0 then 0 else name.length - pos

def replaceExtension (path replacement : FilePath) : FilePath :=
  path.take (path.length - extensionLength path) ++
    (if replacement ≠ [] ∧ replacement.head? ≠ some dot then [dot] else []) ++ replacement

section

variable (extension : FilePath) (maxRotationFilesCount : UInt32)

def getRotatedFileExtension (count : Int) : FilePath :=
  extension ++ [dot] ++ signedDecimal asciiDigit count

def getRotatedFilePath (source : FilePath) (rotationCount : Nat) : FilePath :=
  replaceExtension source (getRotatedFileExtension extension (Int.bmod rotationCount (2 ^ 32)))

variable {α : Type*} (faults : Faults)

/-- The loop of `getRotatedFilesCount`, with so many rounds to go. -/
def countLoop (dir : Directory α) (path : FilePath) : Nat → Nat → Nat → Option Nat
  | 0, _, count => some count
  | rounds + 1, i, count =>
      match dir.exists faults (getRotatedFilePath extension path i) with
      | none => none
      | some false => some count
      | some true => countLoop dir path rounds (i + 1) (count + 1)

def getRotatedFilesCount (dir : Directory α) (path : FilePath) : Option Nat :=
  countLoop extension faults dir path (maxRotationFilesCount.toNat - 1) 1 0

/-- The loop of `rotateFile`, downwards from an index. -/
def rotateLoop (path : FilePath) : Nat → Directory α → Bool × Directory α
  | 0, dir => (true, dir)
  | i + 1, dir =>
      let src := getRotatedFilePath extension path (i + 1)
      if i + 1 = maxRotationFilesCount.toNat - 1 then
        match dir.remove faults src with
        | none => (false, dir)
        | some dir => rotateLoop path i dir
      else
        match dir.rename faults src (getRotatedFilePath extension path (i + 1 + 1)) with
        | none => (false, dir)
        | some dir => rotateLoop path i dir

def rotateFile (path : FilePath) (dir : Directory α) : Bool × Directory α :=
  match dir.exists faults path with
  | none => (false, dir)
  | some false => (true, dir)
  | some true =>
      match getRotatedFilesCount extension maxRotationFilesCount faults dir path with
      | none => (false, dir)
      | some rotatedFiles =>
          match rotateLoop extension maxRotationFilesCount faults path rotatedFiles dir with
          | (false, dir) => (false, dir)
          | (true, dir) =>
              match dir.rename faults path (getRotatedFilePath extension path 1) with
              | none => (false, dir)
              | some dir => (true, dir)

end

/-! ## Crash dumps -/

/-- `toNumeric`, which returns zero for what is no number, or none of an `int`. -/
def toNumeric (text : FilePath) : Int := (stoSigned 32 10 text).getD 0

def getFileNumber (filename : FilePath) : UInt32 :=
  match rfind [dot] filename none with
  | none => 0
  | some position => .ofInt (toNumeric (filename.drop (position + 1)))

/-- `hex.0`. -/
def hexZero : FilePath := [0x68, 0x65, 0x78, 0x2E, 0x30]

def incrementFileNumber (crashdumpPath : FilePath) : FilePath :=
  match rfind [dot] crashdumpPath none with
  | none => crashdumpPath
  | some position =>
      let fileNumber := toNumeric (crashdumpPath.drop (position + 1))
      crashdumpPath.take (position + 1) ++
        if fileNumber ≠ 0 then signedDecimal asciiDigit (Int.bmod (fileNumber + 1) (2 ^ 32))
        else hexZero

variable (maxRotationFilesCount : UInt32) {α : Type*} (faults : Faults)

/-- `rotateFiles`, on the set of the paths in the directory, in its order. -/
def rotateFiles : List FilePath → Directory α → Bool × Directory α
  | [], dir => (true, dir)
  | crashdump :: crashdumps, dir =>
      if maxRotationFilesCount ≤ getFileNumber crashdump then
        match dir.remove faults crashdump with
        | none => (false, dir)
        | some dir => rotateFiles crashdumps dir
      else
        match dir.rename faults crashdump (incrementFileNumber crashdump) with
        | none => (false, dir)
        | some dir => rotateFiles crashdumps dir

end Rotator

end MuditaOS.Utils

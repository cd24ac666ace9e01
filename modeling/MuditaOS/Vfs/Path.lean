import MuditaOS.Utils.Strings

/-!
# Paths

`normalize_path`, `absolute_path` and `compare_mount_points` of `filesystem.cpp`. In
front of the first element of a list the iterator of libstdc++ stands at its end.
-/

namespace MuditaOS.Vfs

open MuditaOS.Utils

abbrev Path := List UInt8

def pathSeparator : UInt8 := 0x2F

/-- The loop over the components, those in front of the iterator last one first. -/
def normalizeLoop : List Path → List Path → List Path
  | before, [] => before.reverse
  | before, ep :: after =>
      if ep = [0x2E] then normalizeLoop before after
      else if ep = [0x2E, 0x2E] then normalizeLoop before.tail after
      else normalizeLoop (ep :: before) after

def normalizePath (path : Path) : Path :=
  let paths := normalizeLoop [] (splitView path pathSeparator)
  let ret := (paths.filter (· ≠ [])).flatMap fun ep => pathSeparator :: ep
  if ret = [] then [pathSeparator] else ret

/-- `cwd` is the task's working directory. -/
def absolutePath (cwd path : Path) : Path :=
  if path.head? = some pathSeparator then normalizePath path
  else normalizePath (cwd ++ pathSeparator :: path)

/-- A path without one slash at its end. -/
def dropSeparator (path : Path) : Path :=
  if path.getLast? = some pathSeparator then path.dropLast else path

def compareMountPoints (path1 path2 : Path) : Bool :=
  dropSeparator path1 = dropSeparator path2

end MuditaOS.Vfs

/-! ## The names of a path

What a path says, name by name, apart from how `filesystem.cpp` goes about it: the
names between the slashes are entered one after the other on a stack. Beside it stands
the loop of `normalize_path` on the list itself, an iterator being a position and the
end the length.
-/

namespace MuditaOS.Vfs

def components (path : Path) : List Path := (path.splitOn pathSeparator).filter (· ≠ [])

namespace Components

def dot : Path := [0x2E]

def dotDot : Path := [0x2E, 0x2E]

/-- At the root there is nothing to go back to. -/
def enter (stack : List Path) (name : Path) : List Path :=
  if name = dot then stack
  else if name = dotDot then stack.dropLast
  else stack ++ [name]

def resolve (stack names : List Path) : List Path := names.foldl enter stack

/-- Where the path begins: at the root, or in the working directory. -/
def origin (cwd path : Path) : List Path :=
  if path.head? = some pathSeparator then [] else resolve [] (components cwd)

def rendered (names : List Path) : Path :=
  if names = [] then [pathSeparator] else names.flatMap (pathSeparator :: ·)

/-- A name that is entered as it stands. -/
structure Plain (name : Path) : Prop where
  ne_nil : name ≠ []
  ne_dot : name ≠ dot
  ne_dotDot : name ≠ dotDot
  separator : pathSeparator ∉ name

end Components

/-- The first loop of `normalize_path`. To erase at a position is to stand at what comes
next, and in front of the first element is the end. -/
def normalizeAt (paths : List Path) (it : Nat) : List Path :=
  if h : it < paths.length then
    if paths[it] = Components.dot then normalizeAt (paths.eraseIdx it) it
    else if paths[it] = Components.dotDot then
      if it = 0 then normalizeAt (paths.eraseIdx it) it
      else
        let pit := it - 1
        let erased := paths.eraseIdx pit
        if pit = erased.length then normalizeAt erased pit
        else normalizeAt (erased.eraseIdx pit) pit
    else normalizeAt paths (it + 1)
  else paths
termination_by paths.length - it
decreasing_by
  · rw [List.length_eraseIdx_of_lt h]
    omega
  · rw [List.length_eraseIdx_of_lt h]
    omega
  · have hend : it - 1 = (paths.eraseIdx (it - 1)).length := ‹_›
    rw [← hend]
    omega
  · have hlen := @List.length_eraseIdx_of_lt _ paths (it - 1) (by omega)
    have hend : ¬ it - 1 = (paths.eraseIdx (it - 1)).length := ‹_›
    show ((paths.eraseIdx (it - 1)).eraseIdx (it - 1)).length - (it - 1) < _
    rw [List.length_eraseIdx_of_lt (by omega)]
    omega
  · omega

end MuditaOS.Vfs

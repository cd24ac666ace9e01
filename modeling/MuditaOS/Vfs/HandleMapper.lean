import Mathlib.Data.List.Basic

/-!
# File descriptors

A transcription of `handle_mapper.hpp` and of the three functions of
`filesystem.cpp` that use it for descriptors, each of which holds the lock of the
file system. What is stored is a shared pointer, an `Option`. The vector `unused`
is kept with its back first.
-/

namespace MuditaOS.Vfs

variable {T : Type*}

structure HandleMapper (T : Type*) where
  data : List (Option T)
  unused : List Nat
  deriving DecidableEq, Repr

namespace HandleMapper

def empty : HandleMapper T := ⟨[], []⟩

variable (m : HandleMapper T)

/-- `operator[]`, null outside of the vector. -/
def get (index : Nat) : Option T := (m.data[index]?).join

def remove (index : Nat) : HandleMapper T where
  data := m.data.set index none
  unused := index :: m.unused

def isIndex (index : Nat) : Bool := index < m.data.length

def insert (value : T) : Nat × HandleMapper T :=
  match m.unused with
  | [] => (m.data.length, { m with data := m.data ++ [some value] })
  | result :: unused =>
      (result, { data := m.data.set result (some value), unused := unused })

end HandleMapper

/-! ## Descriptors -/

def firstFileDescriptor : Int := 3

variable (m : HandleMapper T)

def addFilehandle (file : T) : Int × HandleMapper T :=
  ((m.insert file).1 + firstFileDescriptor, (m.insert file).2)

def removeFilehandle (fds : Int) : Option T × HandleMapper T :=
  if fds < firstFileDescriptor then (none, m)
  else
    let index := (fds - firstFileDescriptor).toNat
    if m.isIndex index then (m.get index, m.remove index) else (none, m)

def findFilehandle (fds : Int) : Option T :=
  if fds < firstFileDescriptor then none
  else
    let index := (fds - firstFileDescriptor).toNat
    if m.isIndex index then m.get index else none

end MuditaOS.Vfs

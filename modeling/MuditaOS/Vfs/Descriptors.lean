import MuditaOS.Utils.Errno
import MuditaOS.Vfs.HandleMapper

/-!
# Tasks that open and close files

`filesystem::open` and `filesystem::close` as other tasks see them. Opening ends
in one step on the table, `add_filehandle`. A close takes three: it looks its
descriptor up, lets the driver close the file, which may fail, and removes the
descriptor; between these steps other tasks run. Beside the table and what the
tasks are at, the state keeps which opened files have not been closed yet.
-/

namespace MuditaOS.Vfs

variable {File Task : Type*} [DecidableEq File] [DecidableEq Task]

/-- Where a task is in a call of `close`. -/
inductive Closing (File : Type*) where
  | idle
  /-- Behind `find_filehandle`. -/
  | found (fd : Int) (file : File)
  /-- Behind the driver's `close`, which returned zero. -/
  | closed (fd : Int) (file : File)
  deriving DecidableEq, Repr

structure Descriptors (File Task : Type*) where
  fds : HandleMapper File
  tasks : Task → Closing File
  /-- Opened files and their descriptors. -/
  held : List (File × Int)

inductive Descriptors.Event (File Task : Type*) where
  /-- `add_filehandle` with what the driver's `open` returned. -/
  | add (file : File)
  | find (task : Task) (fd : Int)
  /-- The driver's `close`, or an error of `invoke_fops` before it. -/
  | driverClose (task : Task) (err : Int)
  | remove (task : Task)
  deriving DecidableEq, Repr

namespace Descriptors

def initial : Descriptors File Task := ⟨.empty, fun _ => .idle, []⟩

variable (s : Descriptors File Task)

def setTask (task : Task) (closing : Closing File) : Descriptors File Task :=
  { s with tasks := Function.update s.tasks task closing }

/-- A task that is not at the step does nothing. -/
def step : Event File Task → Descriptors File Task
  | .add file =>
      let (fd, fds) := addFilehandle s.fds file
      { s with fds := fds, held := (file, fd) :: s.held }
  | .find task fd =>
      match s.tasks task, findFilehandle s.fds fd with
      | .idle, some file => s.setTask task (.found fd file)
      | _, _ => s
  | .driverClose task err =>
      match s.tasks task with
      | .found fd file =>
          if err = 0 then s.setTask task (.closed fd file) else s.setTask task .idle
      | _ => s
  | .remove task =>
      match s.tasks task with
      | .closed fd file =>
          let (removed, fds) := removeFilehandle s.fds fd
          { s.setTask task .idle with
            fds := fds
            held := if removed.isSome then s.held.erase (file, fd) else s.held }
      | _ => s

/-- What the call returns to a task that comes to remove its descriptor. -/
def closeReturns (task : Task) : Option Int :=
  match s.tasks task with
  | .closed fd _ => some (if (removeFilehandle s.fds fd).1.isSome then 0 else -EBADF)
  | _ => none

end Descriptors

end MuditaOS.Vfs

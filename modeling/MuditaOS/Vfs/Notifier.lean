import MuditaOS.Vfs.Filesystem

/-!
# File notifications

A transcription of `notifier.cpp`, and of `open`, `close` and `umount` with the
notifier in them. A service is known by a number, an iterator into the events by its
place. What a call reads of the calling thread and of the services comes in with it.
-/

namespace MuditaOS.Vfs

open MuditaOS.Lib

namespace InotifyFlags

def closeWrite : UInt32 := 0x02

def closeNowrite : UInt32 := 0x04

def «open» : UInt32 := 0x40

end InotifyFlags

structure ServiceItem where
  service : Nat
  subscribedEvents : UInt32
  deriving DecidableEq, Repr

structure PathItem where
  path : Path
  readOnly : Bool
  deriving DecidableEq, Repr

/-- The message, with the service it is sent to. -/
structure Inotify where
  service : Nat
  flags : UInt32
  name : Path
  namePrev : Path
  deriving DecidableEq, Repr

/-- Who calls, and which services there are. -/
structure Caller where
  /-- `get_thread_local_cwd_path`. -/
  cwd : Path
  /-- `GetCurrentThreadHandle`. -/
  thread : Nat
  /-- Whether `lock` gives the service. -/
  alive : Nat → Bool
  /-- `GetHandle` of a service. -/
  handle : Nat → Nat

structure Notifier where
  events : List (Path × ServiceItem)
  fdMap : List (Int × PathItem)
  deriving DecidableEq, Repr

namespace Notifier

def empty : Notifier := ⟨[], []⟩

/-! ## Paths -/

/-- The loop of `for_path`. Every round moves `it` to the left, so that the fuel does
not run out. -/
def forPathLoop (path : Path) : Nat → Nat → List Path
  | 0, _ => []
  | fuel + 1, it =>
      if it = 0 then []
      else
        path.take it ::
          match rfind [pathSeparator] path (some (it - 1)) with
          | some it => forPathLoop path fuel it
          | none => []

/-- The paths that `for_path` visits, in their order. Of an empty path, which has no last
character to look at, there are none. -/
def forPath (path : Path) : List Path :=
  let it := if path.getLast? = some pathSeparator then path.length - 1 else path.length
  forPathLoop path path.length it

def absolutePath (cwd path : Path) : Path :=
  dropSeparator
    (if path ≠ [] ∧ path.head? ≠ some pathSeparator then cwd ++ pathSeparator :: path else path)

variable (n : Notifier) (caller : Caller)

/-! ## Subscriptions -/

def registerPath (path : Path) (owner : Nat) (flags : UInt32) : Option Notifier :=
  let abspath := absolutePath caller.cwd path
  if n.events.any fun i =>
      i.1 = abspath ∧ caller.alive i.2.service ∧ i.2.service = owner then none
  else some { n with events := n.events ++ [(abspath, ⟨owner, flags⟩)] }

def unregisterPath (item : Nat) : Notifier := { n with events := n.events.eraseIdx item }

/-! ## Sending -/

def sendNotification (svc : Nat) (flags : UInt32) (name namePrev : Path) : List Inotify :=
  if caller.handle svc ≠ caller.thread then [⟨svc, flags, name, namePrev⟩] else []

def notify (path pathPrv : Path) (mask : UInt32) : List Inotify :=
  let absPath := absolutePath caller.cwd path
  let absPathPrv := absolutePath caller.cwd pathPrv
  (forPath absPath).flatMap fun path =>
    (n.events.filter fun i => i.1 = path).flatMap fun i =>
      if i.2.subscribedEvents &&& mask ≠ 0 then
        if caller.alive i.2.service then
          sendNotification caller i.2.service mask absPath absPathPrv
        else []
      else []

/-- `notify` of a descriptor. -/
def notifyFd (fd : Int) (mask : UInt32) : List Inotify :=
  match n.fdMap.find? fun fname => fname.1 = fd with
  | some fname => n.notify caller fname.2.path [] mask
  | none => []

/-- `emplace` leaves an entry that is there as it is. -/
def emplace (fd : Int) (item : PathItem) : Notifier :=
  if n.fdMap.any fun fname => fname.1 = fd then n
  else { n with fdMap := (fd, item) :: n.fdMap }

def notifyOpen (path : Path) (fd : Int) (ro : Bool) : List Inotify × Notifier :=
  let n := n.emplace fd ⟨path, ro⟩
  (n.notify caller path [] InotifyFlags.open, n)

def notifyClose (fd : Int) : List Inotify × Notifier :=
  match n.fdMap.find? fun fname => fname.1 = fd with
  | some fname =>
      (n.notifyFd caller fname.1
          (if fname.2.readOnly then InotifyFlags.closeNowrite else InotifyFlags.closeWrite),
        { n with fdMap := n.fdMap.filter fun other => other.1 ≠ fname.1 })
  | none => ([], n)

end Notifier

/-! ## The file system with its notifier -/

/-- Whether `open` comes to add a handle. -/
def Filesystem.opens (fs : Filesystem) (cwd path : Path) (flags : UInt32)
    (answer : Option Int) : Bool :=
  match (fs.findMountPoint (absolutePath cwd path)).1 with
  | none => false
  | some mountp =>
      (fs.fsOps mountp).isSome ∧
        ¬ (flags &&& Filesystem.accMode ≠ 0 ∧ mountp.flags &&& MountFlags.readOnly ≠ 0) ∧
        answer = some 0

/-- Whether a round of `cleanup_opened_files` comes to close its descriptor. -/
def Filesystem.onMount (fs : Filesystem) (mountPoint : Path) (fd : Nat) : Bool :=
  match fs.fds.get fd with
  | none => false
  | some filp =>
      match fs.mntpoint filp with
      | none => false
      | some mp => compareMountPoints mp.path mountPoint

structure NotifyingFilesystem where
  fs : Filesystem
  notifier : Notifier

namespace NotifyingFilesystem

variable (s : NotifyingFilesystem) (caller : Caller)

/-- What is returned, what is sent, and the file system afterwards. -/
def «open» (path : Path) (flags : UInt32) (answer : Option Int) :
    Int × List Inotify × NotifyingFilesystem :=
  let (fd, fs) := s.fs.open caller.cwd path flags answer
  if s.fs.opens caller.cwd path flags answer then
    let (sent, notifier) :=
      s.notifier.notifyOpen caller path fd (flags &&& Filesystem.accMode = 0)
    (fd, sent, ⟨fs, notifier⟩)
  else (fd, [], ⟨fs, s.notifier⟩)

def close (fd err : Int) : Int × List Inotify × NotifyingFilesystem :=
  let (ret, fs) := s.fs.close fd err
  if s.fs.closeFops fd err = 0 then
    let (sent, notifier) := s.notifier.notifyClose caller fd
    (ret, sent, ⟨fs, notifier⟩)
  else (ret, [], ⟨fs, s.notifier⟩)

def cleanupStep (mountPoint : Path) (closeErr : Nat → Int) (s : NotifyingFilesystem)
    (fd : Nat) : NotifyingFilesystem :=
  if s.fs.onMount mountPoint fd then
    (s.close caller (fd + firstFileDescriptor) (closeErr fd)).2.2
  else s

def cleanupOpenedFiles (mountPoint : Path) (closeErr : Nat → Int) : NotifyingFilesystem :=
  (List.range s.fs.fds.data.length).foldl (cleanupStep caller mountPoint closeErr) s

def umount (mountPoint : Path) (answers : Filesystem.UmountAnswers) :
    Int × NotifyingFilesystem :=
  match s.fs.findMount mountPoint with
  | none => (-ENOENT, s)
  | some mp =>
      if (s.fs.fsOps mp).isSome then
        let s := s.cleanupOpenedFiles caller mountPoint answers.closeErr
        if answers.err ≠ 0 then (answers.err, s)
        else
          (0, { s with
            fs := { s.fs with
              partitions := if answers.diskHeld then s.fs.partitions.erase mp.diskh.name
                else s.fs.partitions
              mounts := s.fs.mounts.filter fun mntp => mntp.1 ≠ mountPoint } })
      else (- EIO, s)

end NotifyingFilesystem

end MuditaOS.Vfs

import Mathlib.Data.UInt
import MuditaOS.Blkdev.DiskManager
import MuditaOS.Vfs.HandleMapper
import MuditaOS.Vfs.Path

/-!
# The virtual file system

A transcription of `filesystem.cpp` and of the system calls that the mount table
decides. A mount point is known by the number it was made under, and is gone when
no mount refers to it any more; the same goes for a driver and its registration. What
a driver answers comes in with the call. Maps and sets are lists, the order of which no
function here depends on.
-/

namespace MuditaOS.Vfs

open MuditaOS.Blkdev

structure MountPoint where
  id : Nat
  diskh : DiskHandle
  /-- `m_path`, the driver's spelling of the target. -/
  path : Path
  flags : UInt32
  /-- The name that the driver is registered under. -/
  fsType : Path
  deriving DecidableEq, Repr

structure FileHandle where
  /-- The number of its mount point. -/
  mntpoint : Nat
  deriving DecidableEq, Repr

structure FilesystemOperations where
  /-- Whether `mount_prealloc` puts a slash behind the path, as that of ext4 does. -/
  slashBehind : Bool

structure Filesystem where
  fstypes : Path → Option FilesystemOperations
  mounts : List (Path × MountPoint)
  partitions : List Path
  fds : HandleMapper FileHandle
  /-- The number of the next mount point. -/
  made : Nat

namespace MountFlags

def readOnly : UInt32 := 1

def remount : UInt32 := 32

end MountFlags

def MountPoint.isRo (mp : MountPoint) : Bool :=
  mp.flags &&& MountFlags.readOnly = MountFlags.readOnly

def FilesystemOperations.mountPath (ops : FilesystemOperations) (target : Path) : Path :=
  if ops.slashBehind ∧ target.getLast? ≠ some pathSeparator then target ++ [pathSeparator]
  else target

namespace Filesystem

def initial (fstypes : Path → Option FilesystemOperations) : Filesystem :=
  ⟨fstypes, [], [], .empty, 0⟩

variable (fs : Filesystem)

def findMount (target : Path) : Option MountPoint :=
  (fs.mounts.find? fun mntp => mntp.1 = target).map Prod.snd

/-- `mntpoint()` of a file. -/
def mntpoint (file : FileHandle) : Option MountPoint :=
  (fs.mounts.find? fun mntp => mntp.2.id = file.mntpoint).map Prod.snd

/-- `fs_ops()` of a mount point. -/
def fsOps (mp : MountPoint) : Option FilesystemOperations := fs.fstypes mp.fsType

/-! ## Looking a path up -/

/-- One round of `find_mount_point`. -/
def findMountPointStep (path : Path) (found : Option MountPoint × Nat)
    (mntp : Path × MountPoint) : Option MountPoint × Nat :=
  let slen := mntp.1.length
  if slen < found.2 ∨ path.length < slen then found
  else if 1 < slen ∧ path.getD slen 0 ≠ pathSeparator ∧ path.getD slen 0 ≠ 0 then found
  else if path.take slen = mntp.1 then (some mntp.2, slen)
  else found

def findMountPoint (path : Path) : Option MountPoint × Nat :=
  fs.mounts.foldl (findMountPointStep path) (none, 0)

/-- What a call on paths comes to: an error, or a call of the driver. -/
inductive Invoked where
  | returns (err : Int)
  | driver (mountp : MountPoint) (abspath abspath2 : Path)
  deriving DecidableEq, Repr

def invokeFopsSameMp (cwd path path2 : Path) : Invoked :=
  if path = [] ∨ path2 = [] then .returns (-ENOENT)
  else
    let abspath := absolutePath cwd path
    let abspath2 := absolutePath cwd path2
    match fs.findMountPoint abspath with
    | (none, _) => .returns (-ENOENT)
    | (some mountp, pathpos) =>
        if mountp.isRo then .returns (-EACCES)
        else if path.take pathpos ≠ path2.take pathpos then .returns (-EXDEV)
        else if (fs.fsOps mountp).isSome then .driver mountp abspath abspath2
        else .returns (- EIO)

def symlink (cwd existing newlink : Path) : Invoked := fs.invokeFopsSameMp cwd existing newlink

def link (cwd existing newlink : Path) : Invoked := fs.invokeFopsSameMp cwd existing newlink

def rename (cwd oldname newname : Path) : Invoked := fs.invokeFopsSameMp cwd oldname newname

/-! ## Opening and closing -/

/-- `O_ACCMODE`; `O_RDONLY` is zero. -/
def accMode : UInt32 := 3

/-- The driver returns no handle, or one with an error number. -/
def «open» (cwd path : Path) (flags : UInt32) (answer : Option Int) : Int × Filesystem :=
  let abspath := absolutePath cwd path
  match (fs.findMountPoint abspath).1 with
  | none => (-ENOENT, fs)
  | some mountp =>
      if (fs.fsOps mountp).isSome then
        if flags &&& accMode ≠ 0 ∧ mountp.flags &&& MountFlags.readOnly ≠ 0 then (-EACCES, fs)
        else
          match answer with
          | none => (-EBADF, fs)
          | some err =>
              if err ≠ 0 then (err, fs)
              else
                let (fd, fds) := addFilehandle fs.fds ⟨mountp.id⟩
                (fd, { fs with fds := fds })
      else (- EIO, fs)

/-- What `close` of a descriptor comes to before it is removed, `err` the driver's
answer. -/
def closeFops (fd : Int) (err : Int) : Int :=
  match findFilehandle fs.fds fd with
  | none => -EBADF
  | some fil =>
      match fs.mntpoint fil with
      | none => -ENOENT
      | some mp => if (fs.fsOps mp).isSome then err else - EIO

def close (fd : Int) (err : Int) : Int × Filesystem :=
  let ret := fs.closeFops fd err
  if ret = 0 then
    let (removed, fds) := removeFilehandle fs.fds fd
    (if removed.isSome then 0 else -EBADF, { fs with fds := fds })
  else (ret, fs)

/-! ## Mounting -/

/-- `vfat`, `littlefs` and `ext4` by the codes of their partitions. -/
def partTypesToVfs : List (UInt16 × Path) :=
  [(0x0B, [0x76, 0x66, 0x61, 0x74]),
    (0x9E, [0x6C, 0x69, 0x74, 0x74, 0x6C, 0x65, 0x66, 0x73]),
    (0x83, [0x65, 0x78, 0x74, 0x34])]

def autodetectFilesystemType (mgr : DiskManager) (devOrPart : Path) : Path :=
  match mgr.partitionInfo devOrPart with
  | some part => ((partTypesToVfs.find? fun ptype => ptype.1 = part.type).map Prod.snd).getD []
  | none => []

/-- `auto`. -/
def autoType : Path := [0x61, 0x75, 0x74, 0x6F]

def filesystemType (mgr : DiskManager) (devOrPart fsType : Path) : Path :=
  if fsType = autoType then autodetectFilesystemType mgr devOrPart else fsType

/-- `err` is what the driver's `mount` answers. -/
def mount (mgr : DiskManager) (devOrPart target fsType : Path) (flags : UInt32) (err : Int) :
    Int × Filesystem :=
  if target.length ≤ 1 ∨ target.head? ≠ some pathSeparator then (-EINVAL, fs)
  else if flags &&& ~~~(MountFlags.remount ||| MountFlags.readOnly) ≠ 0 then (-ENOTSUP, fs)
  else if (fs.findMount target).isSome then
    if flags &&& MountFlags.remount ≠ 0 then
      (0, { fs with
        mounts := fs.mounts.map fun mntp =>
          if mntp.1 = target then
            (mntp.1, { mntp.2 with flags := flags &&& ~~~MountFlags.remount })
          else mntp })
    else (-EBUSY, fs)
  else if devOrPart ∈ fs.partitions then (-EBUSY, fs)
  else
    let type := filesystemType mgr devOrPart fsType
    if fsType = autoType ∧ type = [] then (-ENODEV, fs)
    else
      match fs.fstypes type with
      | none => (-ENODEV, fs)
      | some ops =>
          match mgr.deviceHandle devOrPart with
          | none => (- ENXIO, fs)
          | some diskh =>
              if err = 0 then
                (0, { fs with
                  mounts := (target,
                    ⟨fs.made, diskh, ops.mountPath target, flags, type⟩) :: fs.mounts
                  partitions := devOrPart :: fs.partitions
                  made := fs.made + 1 })
              else (err, fs)

/-- One round of `cleanup_opened_files`, with the driver's answers to the closes. -/
def cleanupStep (mountPoint : Path) (closeErr : Nat → Int) (fs : Filesystem) (fd : Nat) :
    Filesystem :=
  match fs.fds.get fd with
  | none => fs
  | some filp =>
      match fs.mntpoint filp with
      | none => fs
      | some mp =>
          if compareMountPoints mp.path mountPoint then
            (fs.close (fd + firstFileDescriptor) (closeErr fd)).2
          else fs

def cleanupOpenedFiles (mountPoint : Path) (closeErr : Nat → Int) : Filesystem :=
  (List.range fs.fds.data.length).foldl (cleanupStep mountPoint closeErr) fs

/-- What the driver answers to an unmount: to the closes, to `umount`, and whether it
still held the handle of the disk. -/
structure UmountAnswers where
  closeErr : Nat → Int
  err : Int
  diskHeld : Bool

def umount (mountPoint : Path) (answers : UmountAnswers) : Int × Filesystem :=
  match fs.findMount mountPoint with
  | none => (-ENOENT, fs)
  | some mp =>
      if (fs.fsOps mp).isSome then
        let fs := fs.cleanupOpenedFiles mountPoint answers.closeErr
        if answers.err ≠ 0 then (answers.err, fs)
        else
          (0, { fs with
            partitions := if answers.diskHeld then fs.partitions.erase mp.diskh.name
              else fs.partitions
            mounts := fs.mounts.filter fun mntp => mntp.1 ≠ mountPoint })
      else (- EIO, fs)

/-! ## Calls -/

inductive Call where
  | mount (devOrPart target fsType : Path) (flags : UInt32) (err : Int)
  | umount (mountPoint : Path) (answers : UmountAnswers)
  | «open» (cwd path : Path) (flags : UInt32) (answer : Option Int)
  | close (fd : Int) (err : Int)

/-- What a call returns, and the file system after it. -/
def call (mgr : DiskManager) : Call → Int × Filesystem
  | .mount devOrPart target fsType flags err => fs.mount mgr devOrPart target fsType flags err
  | .umount mountPoint answers => fs.umount mountPoint answers
  | .open cwd path flags answer => fs.open cwd path flags answer
  | .close fd err => fs.close fd err

def step (mgr : DiskManager) (fs : Filesystem) (c : Call) : Filesystem := (fs.call mgr c).2

end Filesystem

end MuditaOS.Vfs

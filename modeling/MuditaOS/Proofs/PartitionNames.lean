import MuditaOS.Lib.Run
import MuditaOS.Proofs.MountTable

/-!
# One mount for a partition

Mounts exclude each other by the name of the device, and the partition is the number
that the name parses to. A partition is mounted twice exactly where a mount is
accepted under a second spelling of a name in use.
-/

namespace MuditaOS.Vfs.Filesystem

open MuditaOS.Blkdev MuditaOS.Lib

variable {fs : Filesystem} {mgr : DiskManager} {c : Call} {cs : List Call} {target : Path}

/-- No two mounts are of one partition of one disk. -/
def Exclusive (fs : Filesystem) : Prop :=
  (fs.mounts.map fun mntp => (mntp.2.diskh.disk, mntp.2.diskh.partition)).Nodup

/-- The names in use are those of the mounts. -/
def NamesExact (fs : Filesystem) : Prop :=
  ∀ name, name ∈ fs.partitions ↔ ∃ mntp ∈ fs.mounts, mntp.2.diskh.name = name

def OncePerPartition (mgr : DiskManager) (fs : Filesystem) (c : Call) : Prop :=
  Exclusive (fs.step mgr c) ∧ NamesExact (fs.step mgr c)

/-- Two names of one partition. -/
def SameDevice (mgr : DiskManager) (name name' : Path) : Prop :=
  ∃ handle handle', mgr.deviceHandle name = some handle ∧
    mgr.deviceHandle name' = some handle' ∧
    handle.disk = handle'.disk ∧ handle.partition = handle'.partition

/-- A mount that is accepted has no name in use for its partition; an unmount finds the
handle of the disk. -/
def OneSpelling (mgr : DiskManager) (fs : Filesystem) : Call → Prop
  | .mount dev target fsType flags err => Accepted fs mgr dev target fsType flags err →
      ∀ name ∈ fs.partitions, ¬ SameDevice mgr name dev
  | .umount target answers =>
      (fs.findMount target).isSome → answers.err = 0 → answers.diskHeld = true
  | _ => True

structure Names (mgr : DiskManager) (fs : Filesystem) : Prop where
  inv : Inv fs
  exclusive : Exclusive fs
  exact : NamesExact fs
  handles : ∀ mntp ∈ fs.mounts, mgr.deviceHandle mntp.2.diskh.name = some mntp.2.diskh

theorem names_initial {fstypes : Path → Option FilesystemOperations} :
    Names mgr (initial fstypes) := by
  refine ⟨inv_initial, List.nodup_nil, fun name => ?_, fun mntp h => absurd h List.not_mem_nil⟩
  exact iff_of_false List.not_mem_nil fun ⟨mntp, h, _⟩ => absurd h List.not_mem_nil

theorem Names.setFds {fds : HandleMapper FileHandle} (h : Names mgr fs) :
    Names mgr { fs with fds := fds } :=
  ⟨h.inv.setFds, h.exclusive, h.exact, h.handles⟩

/-- A call that changes the descriptors only. -/
theorem once_of_fds {fds : HandleMapper FileHandle} (h : Names mgr fs)
    (hstep : fs.step mgr c = { fs with fds := fds }) :
    OncePerPartition mgr fs c ∧ Names mgr (fs.step mgr c) := by
  rw [OncePerPartition, hstep]
  exact ⟨⟨h.exclusive, h.exact⟩, h.setFds⟩

/-! ## Mounting -/

theorem exclusive_added {flags : UInt32} {ty : Path} {ops : FilesystemOperations}
    {diskh : DiskHandle} (h : Names mgr fs)
    (hdiskh : mgr.deviceHandle diskh.name = some diskh) :
    Exclusive (fs.added target flags ty ops diskh) ↔
      ∀ name ∈ fs.partitions, ¬ SameDevice mgr name diskh.name := by
  rw [Exclusive, added, List.map_cons, List.nodup_cons, and_iff_left (by exact h.exclusive),
    List.mem_map]
  constructor
  · rintro hnotin name hname ⟨handle, handle', hhandle, hhandle', hdisk, hpart⟩
    obtain rfl := Option.some.inj (hdiskh.symm.trans hhandle')
    obtain ⟨mntp, hmem, rfl⟩ := (h.exact name).1 hname
    obtain rfl := Option.some.inj ((h.handles mntp hmem).symm.trans hhandle)
    exact hnotin ⟨mntp, hmem, Prod.ext hdisk hpart⟩
  · rintro hspell ⟨mntp, hmem, heq⟩
    obtain ⟨hdisk, hpart⟩ := Prod.mk.inj heq
    exact hspell _ ((h.exact _).2 ⟨mntp, hmem, rfl⟩)
      ⟨_, diskh, h.handles mntp hmem, hdiskh, hdisk, hpart⟩

theorem namesExact_added {flags : UInt32} {ty : Path} {ops : FilesystemOperations}
    {diskh : DiskHandle} (h : Names mgr fs) :
    NamesExact (fs.added target flags ty ops diskh) := by
  intro name
  rw [added]
  change name ∈ diskh.name :: fs.partitions ↔ ∃ mntp ∈ (_, _) :: fs.mounts, _
  rw [List.exists_mem_cons_iff, List.mem_cons, h.exact name]
  exact or_congr eq_comm Iff.rfl

theorem names_remounted {flags : UInt32} (h : Names mgr fs) :
    Names mgr (fs.remounted target flags) := by
  refine ⟨inv_remounted h.inv, ?_, fun name => ?_, ?_⟩
  · rw [Exclusive, map_remounted fun _ _ => rfl]
    exact h.exclusive
  · have hnames := @map_remounted fs target _ (fun mntp => mntp.2.diskh.name) flags
      fun _ _ => rfl
    rw [← List.mem_map (f := fun mntp : Path × MountPoint => mntp.2.diskh.name), hnames,
      List.mem_map]
    exact h.exact name
  · exact forall_remounted (P := fun mntp => mgr.deviceHandle mntp.2.diskh.name =
      some mntp.2.diskh) (fun _ _ h => h) h.handles

theorem mount_once_iff {dev fsType : Path} {flags : UInt32} {err : Int} (h : Names mgr fs) :
    OncePerPartition mgr fs (.mount dev target fsType flags err) ↔
      OneSpelling mgr fs (.mount dev target fsType flags err) := by
  rw [OncePerPartition, OneSpelling, step, call]
  rcases @mount_cases fs mgr target dev fsType flags err with hsame | hflags | ⟨haccepted, hsome⟩
  · rw [hsame]
    refine iff_of_true ⟨h.exclusive, h.exact⟩ ?_
    rintro haccepted name - ⟨-, diskh, -, hdiskh, -⟩
    obtain ⟨ty, ops, -, hmount⟩ := mount_accepted haccepted hdiskh
    exact absurd (congrArg Filesystem.made (hmount.symm.trans hsame)) (Nat.succ_ne_self _)
  · rw [hflags]
    refine iff_of_true ⟨(names_remounted h).exclusive, (names_remounted h).exact⟩ ?_
    rintro haccepted name - ⟨-, diskh, -, hdiskh, -⟩
    obtain ⟨ty, ops, -, hmount⟩ := mount_accepted haccepted hdiskh
    exact absurd (congrArg Filesystem.made (hmount.symm.trans hflags)) (Nat.succ_ne_self _)
  · obtain ⟨diskh, hdiskh⟩ := Option.isSome_iff_exists.1 hsome
    obtain ⟨ty, ops, -, hmount⟩ := mount_accepted haccepted hdiskh
    obtain ⟨rfl, -⟩ := deviceHandle_eq_some hdiskh
    rw [hmount, and_iff_left (namesExact_added h), exclusive_added h hdiskh,
      forall_prop_of_true haccepted]

/-! ## Unmounting -/

/-- With its name, a mount goes from both tables. -/
theorem once_removed {mp : MountPoint} {held : Bool} (h : Names mgr fs)
    (hmem : (target, mp) ∈ fs.mounts) :
    Exclusive (fs.removed target (if held then some mp.diskh.name else none)) ∧
      (NamesExact (fs.removed target (if held then some mp.diskh.name else none)) ↔
        held = true) := by
  refine ⟨(List.filter_sublist.map _).nodup h.exclusive, ?_⟩
  cases held with
  | false =>
      refine iff_of_false (fun hexact => ?_) Bool.false_ne_true
      obtain ⟨mntp, hleft, hname⟩ := (hexact mp.diskh.name).1 (h.inv.names_mem _ hmem)
      obtain ⟨hin, hne⟩ := List.mem_filter.1 hleft
      have hsame := List.inj_on_of_nodup_map h.inv.names hin hmem hname
      exact of_decide_eq_true hne (congrArg Prod.fst hsame)
  | true =>
      refine iff_of_true (fun name => ?_) rfl
      change name ∈ fs.partitions.erase mp.diskh.name ↔ _
      rw [h.inv.partitions.mem_erase_iff, h.exact name]
      constructor
      · rintro ⟨hne, mntp, hin, rfl⟩
        refine ⟨mntp, List.mem_filter.2 ⟨hin, decide_eq_true fun htarget => hne ?_⟩, rfl⟩
        have hsame := List.inj_on_of_nodup_map h.inv.targets hin hmem htarget
        rw [hsame]
      · rintro ⟨mntp, hleft, rfl⟩
        obtain ⟨hin, hne⟩ := List.mem_filter.1 hleft
        refine ⟨fun hname => ?_, mntp, hin, rfl⟩
        have hsame := List.inj_on_of_nodup_map h.inv.names hin hmem hname
        exact of_decide_eq_true hne (congrArg Prod.fst hsame)

theorem umount_once_iff {answers : UmountAnswers} (h : Names mgr fs) :
    OncePerPartition mgr fs (.umount target answers) ↔
      OneSpelling mgr fs (.umount target answers) := by
  rw [OncePerPartition, OneSpelling, step, call]
  cases hfind : fs.findMount target with
  | none =>
      rw [umount_none hfind]
      exact iff_of_true ⟨h.exclusive, h.exact⟩ fun hsome => absurd hsome (by simp)
  | some mp =>
      have hmem := (findMount_eq_some h.inv).1 hfind
      obtain ⟨fds, hfds⟩ := @cleanup_eq fs target answers.closeErr (List.range fs.fds.data.length)
      rw [umount_some hfind (h.inv.ops _ hmem), cleanupOpenedFiles, hfds]
      by_cases herr : answers.err = 0
      · rw [if_neg (not_not_intro herr), Option.isSome_some, forall_prop_of_true rfl,
          forall_prop_of_true herr]
        obtain ⟨hexclusive, hexact⟩ := @once_removed _ mgr target mp answers.diskHeld
          (@Names.setFds fs mgr fds h) hmem
        exact (and_iff_right hexclusive).trans hexact
      · rw [if_pos herr]
        exact iff_of_true ⟨h.exclusive, h.exact⟩ fun _ hzero => absurd hzero herr

/-! ## Every call -/

theorem once_iff (h : Names mgr fs) :
    OncePerPartition mgr fs c ↔ OneSpelling mgr fs c := by
  cases c with
  | mount dev target fsType flags err => exact mount_once_iff h
  | umount target answers => exact umount_once_iff h
  | «open» cwd path flags answer =>
      obtain ⟨fds, hfds⟩ := @open_eq fs cwd path flags answer
      exact iff_of_true (once_of_fds h (by rw [step, call, hfds])).1 trivial
  | close fd err =>
      obtain ⟨fds, hfds⟩ := @close_eq fs fd err
      exact iff_of_true (once_of_fds h (by rw [step, call, hfds])).1 trivial

/-- A mount keeps the handle that its name was looked up for. -/
theorem handles_step (h : Names mgr fs) :
    ∀ mntp ∈ (fs.step mgr c).mounts, mgr.deviceHandle mntp.2.diskh.name = some mntp.2.diskh := by
  refine forall_mounts_step h.inv (fun _ _ hhandle => hhandle) ?_ h.handles
  intro _ _ _ _ _ diskh _ hdiskh mp hmp
  obtain ⟨rfl, -⟩ := deviceHandle_eq_some hdiskh
  rw [hmp]
  exact hdiskh

theorem Names.step (h : Names mgr fs) (hspell : OneSpelling mgr fs c) :
    Names mgr (fs.step mgr c) := by
  obtain ⟨hexclusive, hexact⟩ := (once_iff h).2 hspell
  exact ⟨inv_step h.inv, hexclusive, hexact, handles_step h⟩

/-- In a run, no partition is mounted twice and the names in use are those of the
mounts, exactly where every mount keeps to one spelling and every unmount finds the
handle of the disk. -/
theorem oncePerPartition_iff {fstypes : Path → Option FilesystemOperations} :
    EveryStep (OncePerPartition mgr) (Filesystem.step mgr) (initial fstypes) cs ↔
      EveryStep (OneSpelling mgr) (Filesystem.step mgr) (initial fstypes) cs :=
  @everyStep_congr Filesystem Call (Names mgr) (OncePerPartition mgr) (OneSpelling mgr)
    (Filesystem.step mgr) (fun _ _ h => once_iff h) (fun _ _ h => h.step) _ _ names_initial

/-- `d` is a disk of two partitions, and the second one is mounted as `dpart1` and as
`dpart01`. -/
theorem mounted_twice : ¬ EveryStep
    (OncePerPartition ⟨fun _ => some 0, fun _ => some ⟨[{}, {}], fun _ => 4096⟩⟩)
    (Filesystem.step ⟨fun _ => some 0, fun _ => some ⟨[{}, {}], fun _ => 4096⟩⟩)
    (initial fun _ => some ⟨false⟩)
    [.mount [0x64, 0x70, 0x61, 0x72, 0x74, 0x31] [0x2F, 0x61] [0x66] 0 0,
      .mount [0x64, 0x70, 0x61, 0x72, 0x74, 0x30, 0x31] [0x2F, 0x62] [0x66] 0 0] := by
  rintro ⟨-, ⟨hexclusive, -⟩, -⟩
  rw [Exclusive] at hexclusive
  exact absurd hexclusive (by decide)

end MuditaOS.Vfs.Filesystem

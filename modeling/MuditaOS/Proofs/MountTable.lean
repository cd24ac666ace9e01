import MuditaOS.Lib.Keyed
import MuditaOS.Proofs.HandleTable
import MuditaOS.Vfs.Filesystem
import MuditaOS.Blkdev.DiskManager

/-!
# The mount table in step with the partitions

What every run of mounts, unmounts, opens and closes keeps: targets, numbers and
device names of the mounts are all different, each mount's device name is among the
used ones, its driver is registered, and the driver's spelling of the target is the
target up to a slash. Nothing here depends on what the drivers answer.
-/

/-! ## Handles of devices

What a handle obtained by name says of the name.
-/

namespace MuditaOS.Blkdev

variable {mgr : DiskManager} {handle : DiskHandle} {name : List UInt8}

/-- A handle keeps its name and what the name parses to, and its index lies in the
table of partitions it was obtained for. -/
theorem deviceHandle_eq_some (h : mgr.deviceHandle name = some handle) :
    handle.name = name ∧ handle.partition = (parseDeviceName name).2 ∧
      mgr.devMap (parseDeviceName name).1 = some handle.disk ∧
      (isUserPartition handle.partition = true →
        handle.partition.toNat < (mgr.partitions handle).length) := by
  rw [DiskManager.deviceHandle] at h
  dsimp only at h
  split at h
  · exact absurd h (by simp)
  · split at h
    · exact absurd h (by simp)
    · next disk hdev =>
        split at h
        · exact absurd h (by simp)
        · next hinside =>
            obtain rfl := Option.some.inj h
            refine ⟨rfl, rfl, hdev, fun huser => ?_⟩
            have hlt : ¬ Int.bmod (mgr.partitions _).length (2 ^ 32) ≤ _ := fun hle =>
              hinside ⟨huser, hle⟩
            rw [isUserPartition, isAnyPartition, Bool.and_eq_true, decide_eq_true_iff] at huser
            rw [Int.bmod_def] at hlt
            dsimp only at huser hlt ⊢
            split at hlt <;> omega

end MuditaOS.Blkdev

namespace MuditaOS.Vfs.Filesystem

open MuditaOS.Blkdev MuditaOS.Lib

variable {fs : Filesystem} {mgr : DiskManager} {c : Call} {target : Path}

structure Inv (fs : Filesystem) : Prop where
  targets : (fs.mounts.map Prod.fst).Nodup
  ids : (fs.mounts.map fun mntp => mntp.2.id).Nodup
  ids_lt : ∀ mntp ∈ fs.mounts, mntp.2.id < fs.made
  names : (fs.mounts.map fun mntp => mntp.2.diskh.name).Nodup
  names_mem : ∀ mntp ∈ fs.mounts, mntp.2.diskh.name ∈ fs.partitions
  partitions : fs.partitions.Nodup
  path : ∀ mntp ∈ fs.mounts, compareMountPoints mntp.2.path mntp.1 = true
  ops : ∀ mntp ∈ fs.mounts, (fs.fsOps mntp.2).isSome

theorem inv_initial {fstypes : Path → Option FilesystemOperations} :
    Inv (initial fstypes) := by
  constructor <;> simp [initial]

/-! ## Looking up -/

theorem findMount_eq_some {mp : MountPoint} (hinv : Inv fs) :
    fs.findMount target = some mp ↔ (target, mp) ∈ fs.mounts := by
  rw [findMount, Option.map_eq_some_iff]
  constructor
  · rintro ⟨⟨target', mp⟩, hfind, rfl⟩
    obtain ⟨hmem, rfl⟩ := (find?_key_eq_some hinv.targets).1 hfind
    exact hmem
  · intro hmem
    exact ⟨(target, mp), (find?_key_eq_some hinv.targets).2 ⟨hmem, rfl⟩, rfl⟩

theorem findMount_eq_none : fs.findMount target = none ↔ target ∉ fs.mounts.map Prod.fst := by
  rw [findMount, Option.map_eq_none_iff, find?_key_eq_none]

theorem mntpoint_eq_some {file : FileHandle} {mp : MountPoint} (hinv : Inv fs) :
    fs.mntpoint file = some mp ↔
      ∃ target, (target, mp) ∈ fs.mounts ∧ mp.id = file.mntpoint := by
  rw [mntpoint, Option.map_eq_some_iff]
  constructor
  · rintro ⟨⟨target, mp⟩, hfind, rfl⟩
    exact ⟨target, (find?_key_eq_some hinv.ids).1 hfind⟩
  · intro ⟨target, hmem, hid⟩
    exact ⟨(target, mp), (find?_key_eq_some hinv.ids).2 ⟨hmem, hid⟩, rfl⟩

theorem compare_mountPath {ops : FilesystemOperations} :
    compareMountPoints (ops.mountPath target) target = true := by
  rw [compareMountPoints, decide_eq_true_iff, FilesystemOperations.mountPath]
  split
  · next h =>
      rw [dropSeparator, dropSeparator, if_pos List.getLast?_concat, List.dropLast_concat,
        if_neg h.2]
  · rfl

/-! ## The calls -/

/-- Descriptors have no part in the invariant. -/
theorem Inv.setFds {fds : HandleMapper FileHandle} (hinv : Inv fs) :
    Inv { fs with fds := fds } :=
  ⟨hinv.targets, hinv.ids, hinv.ids_lt, hinv.names, hinv.names_mem, hinv.partitions,
    hinv.path, hinv.ops⟩

theorem open_eq {cwd path : Path} {flags : UInt32} {answer : Option Int} :
    ∃ fds, (fs.open cwd path flags answer).2 = { fs with fds := fds } := by
  rw [«open»]
  dsimp only
  repeat' split
  all_goals exact ⟨_, rfl⟩

theorem close_eq {fd err : Int} :
    ∃ fds, (fs.close fd err).2 = { fs with fds := fds } := by
  rw [close]
  dsimp only
  split <;> exact ⟨_, rfl⟩

theorem cleanupStep_eq {closeErr : Nat → Int} {fd : Nat} :
    ∃ fds, cleanupStep target closeErr fs fd = { fs with fds := fds } := by
  rw [cleanupStep]
  repeat' split
  · exact ⟨_, rfl⟩
  · exact ⟨_, rfl⟩
  · exact close_eq
  · exact ⟨_, rfl⟩

theorem cleanup_eq {closeErr : Nat → Int} {is : List Nat} :
    ∃ fds, is.foldl (cleanupStep target closeErr) fs = { fs with fds := fds } := by
  induction is generalizing fs with
  | nil => exact ⟨_, rfl⟩
  | cons i is ih =>
      obtain ⟨fds, hfds⟩ := @cleanupStep_eq fs target closeErr i
      rw [List.foldl_cons, hfds]
      obtain ⟨fds', hfds'⟩ := @ih { fs with fds := fds }
      exact ⟨fds', hfds'⟩

/-- The mount that a call of `mount` adds. -/
def added (fs : Filesystem) (target : Path) (flags : UInt32) (fsType : Path)
    (ops : FilesystemOperations) (diskh : DiskHandle) : Filesystem :=
  { fs with
    mounts := (target, ⟨fs.made, diskh, ops.mountPath target, flags, fsType⟩) :: fs.mounts
    partitions := diskh.name :: fs.partitions
    made := fs.made + 1 }

/-- Other flags for a mount. -/
def remounted (fs : Filesystem) (target : Path) (flags : UInt32) : Filesystem :=
  { fs with
    mounts := fs.mounts.map fun mntp =>
      if mntp.1 = target then
        (mntp.1, { mntp.2 with flags := flags &&& ~~~MountFlags.remount })
      else mntp }

/-- The checks that a mount of a new target has to pass, the answer of the driver
included. -/
structure Accepted (fs : Filesystem) (mgr : DiskManager) (dev target fsType : Path)
    (flags : UInt32) (err : Int) : Prop where
  rooted : ¬ (target.length ≤ 1 ∨ target.head? ≠ some pathSeparator)
  supported : ¬ flags &&& ~~~(MountFlags.remount ||| MountFlags.readOnly) ≠ 0
  free : fs.findMount target = none
  unused : dev ∉ fs.partitions
  typed : ¬ (fsType = autoType ∧ filesystemType mgr dev fsType = [])
  registered : (fs.fstypes (filesystemType mgr dev fsType)).isSome
  mounted : err = 0

/-- An accepted mount of a device that is there is added. -/
theorem mount_accepted {dev fsType : Path} {flags : UInt32} {err : Int} {diskh : DiskHandle}
    (h : Accepted fs mgr dev target fsType flags err)
    (hdiskh : mgr.deviceHandle dev = some diskh) :
    ∃ ty ops, fs.fstypes ty = some ops ∧
      (fs.mount mgr dev target fsType flags err).2 = fs.added target flags ty ops diskh := by
  obtain ⟨ops, hops⟩ := Option.isSome_iff_exists.1 h.registered
  refine ⟨_, ops, hops, ?_⟩
  rw [mount, if_neg h.rooted, if_neg h.supported, h.free, if_neg (by simp), if_neg h.unused]
  dsimp only
  rw [if_neg h.typed, hops]
  dsimp only
  rw [hdiskh]
  dsimp only
  rw [if_pos h.mounted, added, (deviceHandle_eq_some hdiskh).1]

/-- What a mount can do: nothing, give a mount other flags, or add one. -/
theorem mount_cases {dev fsType : Path} {flags : UInt32} {err : Int} :
    (fs.mount mgr dev target fsType flags err).2 = fs ∨
    (fs.mount mgr dev target fsType flags err).2 = fs.remounted target flags ∨
    Accepted fs mgr dev target fsType flags err ∧ (mgr.deviceHandle dev).isSome := by
  rw [mount]
  split
  · exact .inl rfl
  · next htarget =>
      split
      · exact .inl rfl
      · next hflags =>
          split
          · split
            · exact .inr (.inl rfl)
            · exact .inl rfl
          · next hfind =>
              split
              · exact .inl rfl
              · next hdev =>
                  dsimp only
                  split
                  · exact .inl rfl
                  · next htyped =>
                      split
                      · exact .inl rfl
                      · next ops hops =>
                          split
                          · exact .inl rfl
                          · next diskh hdiskh =>
                              split
                              · next herr =>
                                  rw [Bool.not_eq_true, Option.isSome_eq_false_iff,
                                    Option.isNone_iff_eq_none] at hfind
                                  exact .inr (.inr ⟨⟨htarget, hflags, hfind, hdev, htyped,
                                    Option.isSome_of_eq_some hops, herr⟩,
                                    Option.isSome_of_eq_some hdiskh⟩)
                              · exact .inl rfl

theorem inv_added {flags : UInt32} {ty : Path} {ops : FilesystemOperations}
    {diskh : DiskHandle} (hinv : Inv fs) (hfind : fs.findMount target = none)
    (hname : diskh.name ∉ fs.partitions) (hops : fs.fstypes ty = some ops) :
    Inv (fs.added target flags ty ops diskh) := by
  refine ⟨?_, ?_, ?_, ?_, ?_, ?_, ?_, ?_⟩
  · exact List.nodup_cons.2 ⟨findMount_eq_none.1 hfind, hinv.targets⟩
  · refine List.nodup_cons.2 ⟨fun hin => ?_, hinv.ids⟩
    obtain ⟨mntp, hmem, hid⟩ := List.mem_map.1 hin
    exact absurd (hinv.ids_lt mntp hmem) (by rw [hid]; exact Nat.lt_irrefl _)
  · rintro mntp (_ | ⟨_, hmem⟩)
    · exact Nat.lt_succ_self _
    · exact Nat.lt_succ_of_lt (hinv.ids_lt mntp hmem)
  · refine List.nodup_cons.2 ⟨fun hin => ?_, hinv.names⟩
    obtain ⟨mntp, hmem, hname'⟩ := List.mem_map.1 hin
    have hin := hinv.names_mem mntp hmem
    rw [hname'] at hin
    exact hname hin
  · rintro mntp (_ | ⟨_, hmem⟩)
    · exact List.mem_cons_self
    · exact List.mem_cons_of_mem _ (hinv.names_mem mntp hmem)
  · exact List.nodup_cons.2 ⟨hname, hinv.partitions⟩
  · rintro mntp (_ | ⟨_, hmem⟩)
    · exact compare_mountPath
    · exact hinv.path mntp hmem
  · rintro mntp (_ | ⟨_, hmem⟩)
    · exact Option.isSome_of_eq_some hops
    · exact hinv.ops mntp hmem

/-- Other flags change none of the other fields. -/
theorem map_remounted {β : Type} {f : Path × MountPoint → β} {flags : UInt32}
    (hf : ∀ (mntp : Path × MountPoint) flags, f (mntp.1, { mntp.2 with flags }) = f mntp) :
    (fs.remounted target flags).mounts.map f = fs.mounts.map f := by
  rw [remounted, List.map_map]
  refine List.map_congr_left fun mntp _ => ?_
  rw [Function.comp_apply]
  split
  · exact hf mntp _
  · rfl

theorem forall_remounted {P : Path × MountPoint → Prop} {flags : UInt32}
    (hP : ∀ (mntp : Path × MountPoint) flags, P mntp → P (mntp.1, { mntp.2 with flags }))
    (h : ∀ mntp ∈ fs.mounts, P mntp) : ∀ mntp ∈ (fs.remounted target flags).mounts, P mntp := by
  intro mntp hmem
  obtain ⟨mntp', hmem', rfl⟩ := List.mem_map.1 hmem
  split
  · exact hP mntp' _ (h mntp' hmem')
  · exact h mntp' hmem'

theorem inv_remounted {flags : UInt32} (hinv : Inv fs) : Inv (fs.remounted target flags) := by
  refine ⟨?_, ?_, ?_, ?_, ?_, hinv.partitions, ?_, ?_⟩
  · rw [map_remounted fun _ _ => rfl]
    exact hinv.targets
  · rw [map_remounted fun _ _ => rfl]
    exact hinv.ids
  · exact forall_remounted (fun _ _ h => h) hinv.ids_lt
  · rw [map_remounted fun _ _ => rfl]
    exact hinv.names
  · exact forall_remounted (fun _ _ h => h) hinv.names_mem
  · exact forall_remounted (fun _ _ h => h) hinv.path
  · exact forall_remounted (P := fun mntp => (fs.fsOps mntp.2).isSome) (fun _ _ h => h) hinv.ops

theorem inv_mount {dev fsType : Path} {flags : UInt32} {err : Int} (hinv : Inv fs) :
    Inv (fs.mount mgr dev target fsType flags err).2 := by
  rcases @mount_cases fs mgr target dev fsType flags err with h | h | ⟨haccepted, hsome⟩
  · rw [h]
    exact hinv
  · rw [h]
    exact inv_remounted hinv
  · obtain ⟨diskh, hdiskh⟩ := Option.isSome_iff_exists.1 hsome
    obtain ⟨ty, ops, hops, h⟩ := mount_accepted haccepted hdiskh
    rw [h]
    refine inv_added hinv haccepted.free ?_ hops
    rw [(deviceHandle_eq_some hdiskh).1]
    exact haccepted.unused

/-! ## Unmounting -/

/-- A mount taken out of the table. -/
def removed (fs : Filesystem) (target : Path) (name : Option Path) : Filesystem :=
  { fs with
    partitions := name.elim fs.partitions fs.partitions.erase
    mounts := fs.mounts.filter fun mntp => mntp.1 ≠ target }

theorem umount_none {answers : UmountAnswers} (hfind : fs.findMount target = none) :
    fs.umount target answers = (-ENOENT, fs) := by
  rw [umount, hfind]

/-- An unmount of a mount, where the driver is registered: the files are closed in any
case. -/
theorem umount_some {answers : UmountAnswers} {mp : MountPoint}
    (hfind : fs.findMount target = some mp) (hops : (fs.fsOps mp).isSome) :
    fs.umount target answers =
      if answers.err ≠ 0 then
        (answers.err, fs.cleanupOpenedFiles target answers.closeErr)
      else
        (0, (fs.cleanupOpenedFiles target answers.closeErr).removed target
          (if answers.diskHeld then some mp.diskh.name else none)) := by
  rw [umount, hfind]
  dsimp only
  rw [if_pos hops]
  split
  · rfl
  · cases answers.diskHeld <;> rfl

theorem inv_removed {mp : MountPoint} {held : Bool} (hinv : Inv fs)
    (hmem : (target, mp) ∈ fs.mounts) :
    Inv (fs.removed target (if held then some mp.diskh.name else none)) := by
  have hsub : (fs.mounts.filter fun mntp => mntp.1 ≠ target).Sublist fs.mounts :=
    List.filter_sublist
  refine ⟨(hsub.map _).nodup hinv.targets, (hsub.map _).nodup hinv.ids,
    fun mntp h => hinv.ids_lt mntp (hsub.subset h), (hsub.map _).nodup hinv.names,
    fun mntp h => ?_, ?_, fun mntp h => hinv.path mntp (hsub.subset h),
    fun mntp h => hinv.ops mntp (hsub.subset h)⟩
  · have hin := hinv.names_mem mntp (hsub.subset h)
    cases held with
    | false => exact hin
    | true =>
        refine (hinv.partitions.mem_erase_iff).2 ⟨fun hname => ?_, hin⟩
        have hsame := List.inj_on_of_nodup_map hinv.names (hsub.subset h) hmem hname
        exact of_decide_eq_true (List.mem_filter.1 h).2 (congrArg Prod.fst hsame)
  · cases held with
    | false => exact hinv.partitions
    | true => exact hinv.partitions.erase _

theorem inv_umount {answers : UmountAnswers} (hinv : Inv fs) :
    Inv (fs.umount target answers).2 := by
  cases hfind : fs.findMount target with
  | none =>
      rw [umount_none hfind]
      exact hinv
  | some mp =>
      have hmem := (findMount_eq_some hinv).1 hfind
      obtain ⟨fds, hfds⟩ := @cleanup_eq fs target answers.closeErr (List.range fs.fds.data.length)
      rw [umount_some hfind (hinv.ops _ hmem), cleanupOpenedFiles, hfds]
      split
      · exact hinv.setFds
      · exact inv_removed hinv.setFds hmem

theorem inv_step (hinv : Inv fs) : Inv (fs.step mgr c) := by
  cases c with
  | mount dev target fsType flags err => exact inv_mount hinv
  | umount target answers => exact inv_umount hinv
  | «open» cwd path flags answer =>
      obtain ⟨fds, hfds⟩ := @open_eq fs cwd path flags answer
      rw [step, call, hfds]
      exact hinv.setFds
  | close fd err =>
      obtain ⟨fds, hfds⟩ := @close_eq fs fd err
      rw [step, call, hfds]
      exact hinv.setFds

/-- What holds of every mount, whatever its flags are, holds after a call if it holds of a
mount that has passed its checks. -/
theorem forall_mounts_step {P : Path × MountPoint → Prop} (hinv : Inv fs)
    (hflags : ∀ (mntp : Path × MountPoint) flags, P mntp → P (mntp.1, { mntp.2 with flags }))
    (hadded : ∀ {dev target fsType flags err diskh},
      Accepted fs mgr dev target fsType flags err → mgr.deviceHandle dev = some diskh →
        ∀ mp : MountPoint, mp.diskh = diskh → P (target, mp))
    (h : ∀ mntp ∈ fs.mounts, P mntp) : ∀ mntp ∈ (fs.step mgr c).mounts, P mntp := by
  cases c with
  | mount dev target fsType flags err =>
      rw [step, call]
      rcases @mount_cases fs mgr target dev fsType flags err with
        hsame | hremounted | ⟨haccepted, hsome⟩
      · rw [hsame]
        exact h
      · rw [hremounted]
        exact forall_remounted hflags h
      · obtain ⟨diskh, hdiskh⟩ := Option.isSome_iff_exists.1 hsome
        obtain ⟨ty, ops, -, hmount⟩ := mount_accepted haccepted hdiskh
        rw [hmount]
        exact List.forall_mem_cons.2 ⟨hadded haccepted hdiskh _ rfl, h⟩
  | umount target answers =>
      rw [step, call]
      cases hfind : fs.findMount target with
      | none =>
          rw [umount_none hfind]
          exact h
      | some mp =>
          have hmem := (findMount_eq_some hinv).1 hfind
          obtain ⟨fds, hfds⟩ := @cleanup_eq fs target answers.closeErr
            (List.range fs.fds.data.length)
          rw [umount_some hfind (hinv.ops _ hmem), cleanupOpenedFiles, hfds]
          split
          · exact h
          · exact fun mntp hmntp => h mntp (List.mem_of_mem_filter hmntp)
  | «open» cwd path flags answer =>
      obtain ⟨fds, hfds⟩ := @open_eq fs cwd path flags answer
      rw [step, call, hfds]
      exact h
  | close fd err =>
      obtain ⟨fds, hfds⟩ := @close_eq fs fd err
      rw [step, call, hfds]
      exact h

theorem inv_run {cs : List Call} (hinv : Inv fs) : Inv (cs.foldl (step mgr) fs) := by
  induction cs generalizing fs with
  | nil => exact hinv
  | cons c cs ih => exact ih (inv_step hinv)

end MuditaOS.Vfs.Filesystem

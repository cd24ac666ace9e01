import MuditaOS.Proofs.MountTable

/-!
# What an unmount leaves behind

`umount` closes the open files of a mount before it asks the driver, and goes on
whatever the closes return. So a refused unmount has no effect only where it closed
nothing, and a successful one is clean only where every close succeeded; the
partition is freed through the handle of the disk, which has to be there still.
-/

namespace MuditaOS.Vfs.Filesystem

open MuditaOS.Blkdev

variable {fs : Filesystem} {mgr : DiskManager} {target : Path} {closeErr : Nat → Int}
  {answers : UmountAnswers} {i j : Nat}

/-- An unmount that returns zero leaves no descriptor of the mount, removes it and
frees its partition; one that returns an error leaves all as it was. -/
def CleanOrNothing (fs : Filesystem) (target : Path) (answers : UmountAnswers) : Prop :=
  (∀ mp, fs.findMount target = some mp → (fs.umount target answers).1 = 0 →
    (∀ fd file, findFilehandle (fs.umount target answers).2.fds fd = some file →
      file.mntpoint ≠ mp.id) ∧
    (fs.umount target answers).2.findMount target = none ∧
    mp.diskh.name ∉ (fs.umount target answers).2.partitions) ∧
  ((fs.umount target answers).1 ≠ 0 → (fs.umount target answers).2 = fs)

/-- Where the driver unmounts, it still holds the handle of the disk and has closed all
files of the mount; where it refuses, it has closed none of the files that it was
asked to. -/
def Releases (fs : Filesystem) (target : Path) (answers : UmountAnswers) : Prop :=
  ∀ mp, fs.findMount target = some mp →
    if answers.err = 0 then
      answers.diskHeld = true ∧
        ∀ i file, fs.fds.get i = some file → file.mntpoint = mp.id → answers.closeErr i = 0
    else
      ∀ i file mp', fs.fds.get i = some file → fs.mntpoint file = some mp' →
        compareMountPoints mp'.path target = true → answers.closeErr i ≠ 0

/-! ## The files that are closed -/

/-- `cleanup_opened_files` comes to remove the descriptor of slot `i`. -/
def Closes (fs : Filesystem) (target : Path) (closeErr : Nat → Int) (i : Nat) : Prop :=
  ∃ file mp, fs.fds.get i = some file ∧ fs.mntpoint file = some mp ∧
    compareMountPoints mp.path target = true ∧ closeErr i = 0

theorem findFilehandle_slot {fds : HandleMapper FileHandle} :
    findFilehandle fds (i + firstFileDescriptor) = fds.get i := by
  rw [findFilehandle_eq, if_neg (by omega), slotOf_add]

theorem lt_of_get {fds : HandleMapper FileHandle} {file : FileHandle}
    (h : fds.get i = some file) : i < fds.data.length := by
  rw [← findFilehandle_slot] at h
  have hlt := (slotOf_lt h).2
  rwa [slotOf_add] at hlt

theorem close_slot {file : FileHandle} {mp : MountPoint} {err : Int} (hinv : Inv fs)
    (hget : fs.fds.get i = some file) (hmp : fs.mntpoint file = some mp) :
    (fs.close (i + firstFileDescriptor) err).2 =
      if err = 0 then { fs with fds := fs.fds.remove i } else fs := by
  obtain ⟨target', hmem, -⟩ := (mntpoint_eq_some hinv).1 hmp
  have hfops : fs.closeFops (i + firstFileDescriptor) err = err := by
    rw [closeFops, findFilehandle_slot, hget]
    dsimp only
    rw [hmp]
    dsimp only
    rw [if_pos (hinv.ops _ hmem)]
  have hslot : slotOf (i + firstFileDescriptor) < fs.fds.data.length := by
    rw [slotOf_add]
    exact lt_of_get hget
  rw [close, hfops]
  dsimp only
  split
  · dsimp only
    rw [removeFilehandle_snd (by omega) hslot, slotOf_add]
  · rfl

theorem cleanupStep_of_closes (hinv : Inv fs) (h : Closes fs target closeErr i) :
    cleanupStep target closeErr fs i = { fs with fds := fs.fds.remove i } := by
  obtain ⟨file, mp, hget, hmp, hcompare, herr⟩ := h
  rw [cleanupStep, hget]
  dsimp only
  rw [hmp]
  dsimp only
  rw [if_pos hcompare, close_slot hinv hget hmp, if_pos herr]

theorem cleanupStep_of_not (hinv : Inv fs) (h : ¬ Closes fs target closeErr i) :
    cleanupStep target closeErr fs i = fs := by
  rw [cleanupStep]
  split
  · rfl
  · next file hget =>
      split
      · rfl
      · next mp hmp =>
          split
          · next hcompare =>
              rw [close_slot hinv hget hmp,
                if_neg fun herr => h ⟨file, mp, hget, hmp, hcompare, herr⟩]
          · rfl

theorem closes_remove {closeErr : Nat → Int} :
    Closes { fs with fds := fs.fds.remove i } target closeErr j ↔
      j ≠ i ∧ Closes fs target closeErr j := by
  rw [Closes, Closes]
  change (∃ file mp, (fs.fds.remove i).get j = some file ∧ fs.mntpoint file = some mp ∧ _) ↔ _
  rw [HandleMapper.get_remove]
  by_cases hj : j = i
  · rw [if_pos hj]
    exact iff_of_false (by simp) fun h => h.1 hj
  · rw [if_neg hj, and_iff_right hj]

/-- A slot is emptied where its descriptor is removed, and else kept. -/
theorem cleanup_get : ∀ {is : List Nat} {fs : Filesystem}, Inv fs →
    (j ∈ is → Closes fs target closeErr j →
      (is.foldl (cleanupStep target closeErr) fs).fds.get j = none) ∧
    (¬ Closes fs target closeErr j →
      (is.foldl (cleanupStep target closeErr) fs).fds.get j = fs.fds.get j) := by
  intro is
  induction is with
  | nil => intro fs _; exact ⟨fun h => absurd h List.not_mem_nil, fun _ => rfl⟩
  | cons i is ih =>
      intro fs hinv
      rw [List.foldl_cons]
      by_cases hi : Closes fs target closeErr i
      · obtain ⟨hin, hout⟩ := @ih { fs with fds := fs.fds.remove i } hinv.setFds
        rw [cleanupStep_of_closes hinv hi]
        rw [closes_remove] at hin hout
        refine ⟨fun hmem hj => ?_, fun hj => ?_⟩
        · by_cases hji : j = i
          · rw [hout fun h => h.1 hji]
            exact HandleMapper.get_remove.trans (if_pos hji)
          · exact hin ((List.mem_cons.1 hmem).resolve_left hji) ⟨hji, hj⟩
        · rw [hout fun h => hj h.2]
          exact HandleMapper.get_remove.trans (if_neg fun (hji : j = i) => hj (hji ▸ hi))
      · obtain ⟨hin, hout⟩ := @ih fs hinv
        rw [cleanupStep_of_not hinv hi]
        refine ⟨fun hmem hj => ?_, hout⟩
        exact hin ((List.mem_cons.1 hmem).resolve_left fun hji => hi (hji ▸ hj)) hj

theorem cleanup_eq_self {is : List Nat} (hinv : Inv fs)
    (h : ∀ i, ¬ Closes fs target closeErr i) :
    is.foldl (cleanupStep target closeErr) fs = fs := by
  induction is with
  | nil => rfl
  | cons i is ih => rw [List.foldl_cons, cleanupStep_of_not hinv (h i), ih]

theorem cleanupOpenedFiles_get (hinv : Inv fs) :
    (Closes fs target closeErr j →
      (fs.cleanupOpenedFiles target closeErr).fds.get j = none) ∧
    (¬ Closes fs target closeErr j →
      (fs.cleanupOpenedFiles target closeErr).fds.get j = fs.fds.get j) := by
  obtain ⟨hin, hout⟩ := @cleanup_get target closeErr j (List.range fs.fds.data.length) fs hinv
  refine ⟨fun h => ?_, hout⟩
  obtain ⟨file, mp, hget, -⟩ := id h
  exact hin (List.mem_range.2 (lt_of_get hget)) h

theorem cleanupOpenedFiles_eq (hinv : Inv fs) :
    fs.cleanupOpenedFiles target closeErr = fs ↔ ∀ i, ¬ Closes fs target closeErr i := by
  refine ⟨fun heq i h => ?_, cleanup_eq_self hinv⟩
  have hnone := (cleanupOpenedFiles_get hinv).1 h
  obtain ⟨file, mp, hget, -⟩ := h
  rw [heq, hget] at hnone
  exact absurd hnone (by simp)

/-! ## Clean or without effect -/

/-- A refused unmount. -/
theorem refused_iff {mp : MountPoint} (hinv : Inv fs) (hfind : fs.findMount target = some mp)
    (herr : answers.err ≠ 0) :
    CleanOrNothing fs target answers ↔ ∀ i, ¬ Closes fs target answers.closeErr i := by
  have hops := hinv.ops _ ((findMount_eq_some hinv).1 hfind)
  have humount : fs.umount target answers =
      (answers.err, fs.cleanupOpenedFiles target answers.closeErr) := by
    rw [umount_some hfind hops, if_pos herr]
  rw [CleanOrNothing, humount, ← cleanupOpenedFiles_eq hinv]
  exact ⟨fun h => h.2 herr, fun h => ⟨fun _ _ hzero => absurd hzero herr, fun _ => h⟩⟩

/-- A file of the mount is closed where the driver's close succeeds. -/
theorem closes_own_iff {mp : MountPoint} {file : FileHandle} (hinv : Inv fs)
    (hfind : fs.findMount target = some mp) (hget : fs.fds.get i = some file)
    (hown : file.mntpoint = mp.id) :
    Closes fs target closeErr i ↔ closeErr i = 0 := by
  have hmem := (findMount_eq_some hinv).1 hfind
  have hmp : fs.mntpoint file = some mp := (mntpoint_eq_some hinv).2 ⟨target, hmem, hown.symm⟩
  constructor
  · rintro ⟨-, -, -, -, -, herr⟩
    exact herr
  · intro herr
    exact ⟨file, mp, hget, hmp, hinv.path _ hmem, herr⟩

/-- Files of the mount are left open exactly where their close fails. -/
theorem noneLeft_iff {mp : MountPoint} (hinv : Inv fs)
    (hfind : fs.findMount target = some mp) :
    (∀ fd file, findFilehandle (fs.cleanupOpenedFiles target closeErr).fds fd = some file →
      file.mntpoint ≠ mp.id) ↔
    ∀ i file, fs.fds.get i = some file → file.mntpoint = mp.id → closeErr i = 0 := by
  constructor
  · intro h i file hget hown
    refine Classical.byContradiction fun herr => ?_
    have hkept := (cleanupOpenedFiles_get hinv).2
      (mt (closes_own_iff hinv hfind hget hown).1 herr)
    exact h (i + firstFileDescriptor) file (findFilehandle_slot.trans (hkept.trans hget)) hown
  · intro h fd file hleft hown
    rw [findFilehandle_eq] at hleft
    split at hleft
    · exact absurd hleft (by simp)
    · by_cases hcloses : Closes fs target closeErr (slotOf fd)
      · rw [(cleanupOpenedFiles_get hinv).1 hcloses] at hleft
        exact absurd hleft (by simp)
      · have hget := ((cleanupOpenedFiles_get hinv).2 hcloses).symm.trans hleft
        exact hcloses ((closes_own_iff hinv hfind hget hown).2 (h _ file hget hown))

/-- A successful unmount. -/
theorem unmounted_iff {mp : MountPoint} (hinv : Inv fs)
    (hfind : fs.findMount target = some mp) (herr : answers.err = 0) :
    CleanOrNothing fs target answers ↔ answers.diskHeld = true ∧
      ∀ i file, fs.fds.get i = some file → file.mntpoint = mp.id →
        answers.closeErr i = 0 := by
  have hmem := (findMount_eq_some hinv).1 hfind
  obtain ⟨fds, hfds⟩ := @cleanup_eq fs target answers.closeErr (List.range fs.fds.data.length)
  have humount : fs.umount target answers =
      (0, (fs.cleanupOpenedFiles target answers.closeErr).removed target
        (if answers.diskHeld then some mp.diskh.name else none)) := by
    rw [umount_some hfind (hinv.ops _ hmem), if_neg (not_not_intro herr)]
  have hgone : (fs.umount target answers).2.findMount target = none := by
    rw [humount, findMount_eq_none]
    intro hin
    obtain ⟨mntp, hmntp, heq⟩ := List.mem_map.1 hin
    exact of_decide_eq_true (List.mem_filter.1 hmntp).2 heq
  have hfreed : mp.diskh.name ∉ (fs.umount target answers).2.partitions ↔
      answers.diskHeld = true := by
    rw [humount, cleanupOpenedFiles, hfds]
    cases answers.diskHeld with
    | false => exact iff_of_false (not_not_intro (hinv.names_mem _ hmem)) Bool.false_ne_true
    | true => exact iff_of_true hinv.partitions.not_mem_erase rfl
  rw [← @noneLeft_iff fs target answers.closeErr mp hinv hfind, ← hfreed]
  constructor
  · rintro ⟨h, -⟩
    obtain ⟨hleft, -, hname⟩ := h mp hfind (by rw [humount])
    rw [humount] at hleft
    exact ⟨hname, hleft⟩
  · rintro ⟨hname, hleft⟩
    refine ⟨fun mp' hfind' _ => ?_, fun hne => absurd (by rw [humount]) hne⟩
    obtain rfl : mp = mp' := Option.some.inj (hfind.symm.trans hfind')
    refine ⟨?_, hgone, hname⟩
    rw [humount]
    exact hleft

theorem cleanOrNothing_of_inv (hinv : Inv fs) :
    CleanOrNothing fs target answers ↔ Releases fs target answers := by
  cases hfind : fs.findMount target with
  | none =>
      refine iff_of_true ⟨fun mp h => ?_, fun _ => ?_⟩ fun mp h => ?_
      · exact absurd (hfind.symm.trans h) (by simp)
      · rw [umount_none hfind]
      · exact absurd (hfind.symm.trans h) (by simp)
  | some mp =>
      rw [Releases, hfind]
      simp only [Option.some.injEq, forall_eq']
      by_cases herr : answers.err = 0
      · rw [if_pos herr, unmounted_iff hinv hfind herr]
      · rw [if_neg herr, refused_iff hinv hfind herr]
        constructor
        · intro h i file mp' hget hmp hcompare hzero
          exact h i ⟨file, mp', hget, hmp, hcompare, hzero⟩
        · intro h i ⟨file, mp', hget, hmp, hcompare, hzero⟩
          exact h i file mp' hget hmp hcompare hzero

/-- After any calls, whatever the drivers answered, an unmount is clean or without
effect exactly when the driver's answers to it allow that. -/
theorem cleanOrNothing_iff {fstypes : Path → Option FilesystemOperations} {cs : List Call} :
    CleanOrNothing (cs.foldl (step mgr) (initial fstypes)) target answers ↔
      Releases (cs.foldl (step mgr) (initial fstypes)) target answers :=
  cleanOrNothing_of_inv (inv_run inv_initial)

/-- The driver refuses to unmount `/a`, and the file open on it is closed. -/
theorem refused_closes : ¬ CleanOrNothing
    ([.mount [0x64] [0x2F, 0x61] [0x66] 0 0, .open [0x2F] [0x2F, 0x61, 0x2F, 0x66] 0 (some 0)].foldl
      (step ⟨fun _ => some 0, fun _ => some ⟨[], fun _ => 4096⟩⟩)
      (initial fun _ => some ⟨false⟩))
    [0x2F, 0x61] ⟨fun _ => 0, -EBUSY, true⟩ := by
  rintro ⟨-, hnothing⟩
  have hkept := congrArg (fun fs => fs.fds.unused) (hnothing (by decide))
  exact absurd hkept (by decide)

end MuditaOS.Vfs.Filesystem

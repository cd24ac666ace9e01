import MuditaOS.Lib.Run
import MuditaOS.Proofs.MountTable
import MuditaOS.Proofs.NotifierPaths

/-!
# The notice of a close

Beside the file system stands how each descriptor was last opened, and each subscription
with the path that the file system makes of it. The notifier keeps the path of a descriptor
as it was given and makes it absolute again at the close, in its own way and with the
working directory of the thread that closes. Where this gives what the file system opened,
every close, an emergency close of an unmount among them, is told to those who subscribed
to it, and the table of paths loses no descriptor and keeps none.
-/

namespace MuditaOS.Vfs

open MuditaOS.Blkdev MuditaOS.Lib

/-! ## The file system with what is promised -/

/-- How a descriptor was opened. -/
structure Opened where
  cwd : Path
  path : Path
  readOnly : Bool
  deriving DecidableEq

/-- What the file system opened. -/
def Opened.name (o : Opened) : Path := absolutePath o.cwd o.path

def Opened.closeMask (o : Opened) : UInt32 :=
  if o.readOnly then InotifyFlags.closeNowrite else InotifyFlags.closeWrite

structure Session where
  system : NotifyingFilesystem
  /-- The subscriptions, with their paths made absolute by the file system. -/
  watches : List (Path × ServiceItem)
  /-- The descriptors that were opened, last one first. -/
  opened : List (Int × Opened)

namespace Session

inductive Call where
  | mount (devOrPart target fsType : Path) (flags : UInt32) (err : Int)
  | umount (caller : Caller) (mountPoint : Path) (answers : Filesystem.UmountAnswers)
  | «open» (caller : Caller) (path : Path) (flags : UInt32) (answer : Option Int)
  | close (caller : Caller) (fd err : Int)
  | register (caller : Caller) (path : Path) (owner : Nat) (flags : UInt32)
  | unregister (item : Nat)

def initial (fstypes : Path → Option FilesystemOperations) : Session :=
  ⟨⟨Filesystem.initial fstypes, .empty⟩, [], []⟩

def step (mgr : DiskManager) (s : Session) : Call → Session
  | .mount devOrPart target fsType flags err =>
      { s with
        system := { s.system with
          fs := (s.system.fs.mount mgr devOrPart target fsType flags err).2 } }
  | .umount caller mountPoint answers =>
      { s with system := (s.system.umount caller mountPoint answers).2 }
  | .open caller path flags answer =>
      let (fd, _, system) := s.system.open caller path flags answer
      { s with
        system
        opened :=
          if s.system.fs.opens caller.cwd path flags answer then
            (fd, ⟨caller.cwd, path, flags &&& Filesystem.accMode = 0⟩) :: s.opened
          else s.opened }
  | .close caller fd err => { s with system := (s.system.close caller fd err).2.2 }
  | .register caller path owner flags =>
      match s.system.notifier.registerPath caller path owner flags with
      | some notifier =>
          { s with
            system := { s.system with notifier }
            watches := s.watches ++ [(absolutePath caller.cwd path, ⟨owner, flags⟩)] }
      | none => s
  | .unregister item =>
      { s with
        system := { s.system with notifier := s.system.notifier.unregisterPath item }
        watches := s.watches.eraseIdx item }

/-- Something holds of every close that a call makes: of its own, or of those in an
unmount. -/
def EveryClose (P : NotifyingFilesystem → Caller → Int → Int → Prop) (s : NotifyingFilesystem) :
    Call → Prop
  | .close caller fd err => P s caller fd err
  | .umount caller mountPoint answers =>
      ∀ mp, s.fs.findMount mountPoint = some mp → (s.fs.fsOps mp).isSome →
        EveryStep
          (fun s fd => s.fs.onMount mountPoint fd = true →
            P s caller (fd + firstFileDescriptor) (answers.closeErr fd))
          (NotifyingFilesystem.cleanupStep caller mountPoint answers.closeErr) s
          (List.range s.fs.fds.data.length)
  | _ => True

/-- A successful close is told to each subscription on the path that was opened or above it,
of a live service that does not close the file itself: one message, with that path. -/
def Noticed (watches : List (Path × ServiceItem)) (opened : List (Int × Opened))
    (s : NotifyingFilesystem) (caller : Caller) (fd err : Int) : Prop :=
  (s.close caller fd err).1 = 0 →
    ∃ o, entry opened fd = some o ∧
      (s.close caller fd err).2.1.Perm (Notifier.notices watches caller o.name o.closeMask)

/-- The notifier makes the same of a path as the file system, and this is not the root. -/
def Spelled (cwd path : Path) : Prop :=
  Notifier.absolutePath cwd path = absolutePath cwd path ∧
    absolutePath cwd path ≠ [pathSeparator]

instance {cwd path : Path} : Decidable (Spelled cwd path) := inferInstanceAs (Decidable (_ ∧ _))

/-- A descriptor is closed in the directory it was opened in, or its path was absolute. -/
def InPlace (opened : List (Int × Opened)) (s : NotifyingFilesystem) (caller : Caller)
    (fd err : Int) : Prop :=
  s.fs.closeFops fd err = 0 → ∀ o, entry opened fd = some o →
    o.path.head? = some pathSeparator ∨ caller.cwd = o.cwd

def Agreed (s : Session) (c : Call) : Prop :=
  EveryClose (InPlace s.opened) s.system c ∧
    match c with
    | .open caller path flags answer =>
        s.system.fs.opens caller.cwd path flags answer = true → Spelled caller.cwd path
    | .register caller path _ _ => Spelled caller.cwd path
    | _ => True

end Session

/-! ## Opening -/

namespace Filesystem

variable {fs : Filesystem} {cwd path : Path} {flags : UInt32} {answer : Option Int}

theorem open_of_opens (h : fs.opens cwd path flags answer = true) :
    ∃ file, fs.open cwd path flags answer =
      ((addFilehandle fs.fds file).1, { fs with fds := (addFilehandle fs.fds file).2 }) := by
  rw [opens] at h
  rw [«open»]
  dsimp only
  cases hfind : (fs.findMountPoint (absolutePath cwd path)).1 with
  | none => rw [hfind] at h; exact absurd h (by simp)
  | some mountp =>
      rw [hfind] at h
      obtain ⟨hops, hro, rfl⟩ := of_decide_eq_true h
      dsimp only
      rw [if_pos hops, if_neg hro]
      exact ⟨_, rfl⟩

theorem open_of_not_opens (h : ¬ fs.opens cwd path flags answer = true) :
    (fs.open cwd path flags answer).2 = fs := by
  rw [opens] at h
  rw [«open»]
  dsimp only
  cases hfind : (fs.findMountPoint (absolutePath cwd path)).1 with
  | none => rfl
  | some mountp =>
      rw [hfind] at h
      dsimp only at h ⊢
      split
      · next hops =>
          split
          · rfl
          · next hro =>
              split
              · rfl
              · next err =>
                  split
                  · rfl
                  · next herr =>
                      rw [not_not] at herr
                      exact absurd (decide_eq_true ⟨hops, hro, congrArg some herr⟩) h
      · rfl

end Filesystem

/-! ## The table of paths -/

namespace Session

variable {mgr : DiskManager} {s : Session} {system : NotifyingFilesystem} {caller : Caller}
  {watches : List (Path × ServiceItem)} {opened : List (Int × Opened)} {fd err : Int}

/-- The notifier has a path for every open descriptor, the one it was last opened with, and
for no other. -/
structure Tracks (opened : List (Int × Opened)) (system : NotifyingFilesystem) : Prop where
  sound : system.fs.fds.Sound
  gone : ∀ fd, findFilehandle system.fs.fds fd = none → entry system.notifier.fdMap fd = none
  known : ∀ fd, findFilehandle system.fs.fds fd ≠ none →
    ∃ o, entry opened fd = some o ∧ Spelled o.cwd o.path ∧
      entry system.notifier.fdMap fd = some ⟨o.path, o.readOnly⟩

/-- The notifier has the subscriptions, each with a path that its search can visit. -/
structure Watched (watches : List (Path × ServiceItem)) (system : NotifyingFilesystem) :
    Prop where
  events : system.notifier.events = watches
  named : ∀ watch ∈ watches, Named watch.1

theorem Tracks.congr {system' : NotifyingFilesystem} (h : Tracks opened system)
    (hfds : system'.fs.fds = system.fs.fds)
    (hmap : system'.notifier.fdMap = system.notifier.fdMap) : Tracks opened system' := by
  constructor
  · rw [hfds]; exact h.sound
  · rw [hfds, hmap]; exact h.gone
  · rw [hfds, hmap]; exact h.known

theorem Watched.congr {system' : NotifyingFilesystem} (h : Watched watches system)
    (hevents : system'.notifier.events = system.notifier.events) : Watched watches system' :=
  ⟨hevents.trans h.events, h.named⟩

/-! ## Closing -/

theorem isOpen_of_closeFops {fs : Filesystem} (h : fs.closeFops fd err = 0) :
    findFilehandle fs.fds fd ≠ none := by
  intro hnone
  rw [Filesystem.closeFops, hnone] at h
  exact absurd (show -EBADF = 0 from h) (by decide)

theorem close_failed (h : system.fs.closeFops fd err ≠ 0) :
    system.close caller fd err = (system.fs.closeFops fd err, [], system) := by
  have hfs : system.fs.close fd err = (system.fs.closeFops fd err, system.fs) := by
    rw [Filesystem.close]
    exact if_neg h
  rw [NotifyingFilesystem.close, hfs]
  exact if_neg h

/-- What a successful close does: the descriptor is gone from both tables, and the event is
sent under the path in that of the notifier. -/
theorem close_succeeded (htracks : Tracks opened system) (h : system.fs.closeFops fd err = 0) :
    ∃ o, entry opened fd = some o ∧ Spelled o.cwd o.path ∧
      system.close caller fd err = (0, system.notifier.notify caller o.path [] o.closeMask,
        ⟨{ system.fs with fds := (removeFilehandle system.fs.fds fd).2 },
          { system.notifier with
            fdMap := system.notifier.fdMap.filter fun other => other.1 ≠ fd }⟩) := by
  have hopen := isOpen_of_closeFops h
  obtain ⟨o, ho, hspelled, hentry⟩ := htracks.known fd hopen
  have hfind := entry_eq_some.1 hentry
  have hfs : system.fs.close fd err =
      (0, { system.fs with fds := (removeFilehandle system.fs.fds fd).2 }) := by
    rw [Filesystem.close]
    dsimp only
    rw [if_pos h, removeFilehandle_fst, if_pos (Option.isSome_iff_ne_none.2 hopen)]
  refine ⟨o, ho, hspelled, ?_⟩
  rw [NotifyingFilesystem.close, hfs]
  dsimp only
  rw [if_pos h, Notifier.notifyClose, hfind]
  dsimp only
  rw [Notifier.notifyFd, hfind]
  rfl

theorem Watched.close (h : Watched watches system) :
    Watched watches (system.close caller fd err).2.2 := by
  refine h.congr ?_
  rw [NotifyingFilesystem.close]
  dsimp only
  split
  · rw [Notifier.notifyClose]
    split <;> rfl
  · rfl

theorem Tracks.close (h : Tracks opened system) :
    Tracks opened (system.close caller fd err).2.2 := by
  by_cases hfops : system.fs.closeFops fd err = 0
  · obtain ⟨file, hfile⟩ := Option.ne_none_iff_exists'.1 (isOpen_of_closeFops hfops)
    obtain ⟨hfirst, hslot⟩ := slotOf_lt hfile
    obtain ⟨o, -, -, hclose⟩ := @close_succeeded system caller opened fd err h hfops
    rw [hclose]
    refine ⟨?_, fun other hgone => ?_, fun other hopen => ?_⟩
    · show (removeFilehandle system.fs.fds fd).2.Sound
      rw [removeFilehandle_snd hfirst hslot, h.sound.remove_iff hslot]
      rw [findFilehandle_eq, if_neg (by omega)] at hfile
      exact Option.isSome_of_eq_some hfile
    · change findFilehandle (removeFilehandle system.fs.fds fd).2 other = none at hgone
      rw [findFilehandle_removeFilehandle hfirst hslot] at hgone
      show entry (system.notifier.fdMap.filter fun other => other.1 ≠ fd) other = none
      rw [entry_filter]
      split at hgone
      · next heq => rw [if_pos heq]
      · next hne => rw [if_neg hne]; exact h.gone other hgone
    · change findFilehandle (removeFilehandle system.fs.fds fd).2 other ≠ none at hopen
      rw [findFilehandle_removeFilehandle hfirst hslot] at hopen
      show ∃ o, entry opened other = some o ∧ Spelled o.cwd o.path ∧
        entry (system.notifier.fdMap.filter fun other => other.1 ≠ fd) other = _
      rw [entry_filter]
      split at hopen
      · exact absurd rfl hopen
      · next hne => rw [if_neg hne]; exact h.known other hopen
  · rw [close_failed hfops]
    exact h

/-- Where the notifier makes the same path of it again, the subscriptions on the way to what
was opened are told, each once. -/
theorem noticed_of_inPlace (htracks : Tracks opened system) (hwatched : Watched watches system)
    (h : InPlace opened system caller fd err) :
    Noticed watches opened system caller fd err := by
  intro hret
  have hfops : system.fs.closeFops fd err = 0 := by
    by_contra hne
    rw [close_failed hne] at hret
    exact hne hret
  obtain ⟨o, ho, ⟨hname, hroot⟩, hclose⟩ :=
    @close_succeeded system caller opened fd err htracks hfops
  have hsame : Notifier.absolutePath caller.cwd o.path = o.name := by
    rw [Opened.name, ← hname]
    rcases h hfops o ho with habs | hcwd
    · rw [Notifier.absolutePath, Notifier.absolutePath, if_neg fun hor => hor.2 habs,
        if_neg fun hor => hor.2 habs]
    · rw [hcwd]
  refine ⟨o, ho, ?_⟩
  rw [hclose, ← hwatched.events, ← hsame]
  refine Notifier.notify_perm ?_ fun watch hmem => ?_
  · rw [hsame]
    exact named_absolutePath hroot
  · rw [hwatched.events] at hmem
    exact hwatched.named watch hmem

/-! ## The other calls -/

theorem tracks_mount {devOrPart target fsType : Path} {flags : UInt32}
    (h : Tracks opened system) :
    Tracks opened { system with
      fs := (system.fs.mount mgr devOrPart target fsType flags err).2 } := by
  refine h.congr ?_ rfl
  show (system.fs.mount mgr devOrPart target fsType flags err).2.fds = system.fs.fds
  rcases @Filesystem.mount_cases system.fs mgr target devOrPart fsType flags err with
    hsame | hremount | ⟨haccepted, hsome⟩
  · rw [hsame]
  · rw [hremount]
    rfl
  · obtain ⟨diskh, hdiskh⟩ := Option.isSome_iff_exists.1 hsome
    obtain ⟨ty, ops, -, hadded⟩ := Filesystem.mount_accepted haccepted hdiskh
    rw [hadded]
    rfl

theorem Tracks.cleanupStep {mountPoint : Path} {closeErr : Nat → Int} {slot : Nat}
    (h : Tracks opened system) :
    Tracks opened (NotifyingFilesystem.cleanupStep caller mountPoint closeErr system slot) := by
  rw [NotifyingFilesystem.cleanupStep]
  split
  · exact h.close
  · exact h

theorem Watched.cleanupStep {mountPoint : Path} {closeErr : Nat → Int} {slot : Nat}
    (h : Watched watches system) :
    Watched watches (NotifyingFilesystem.cleanupStep caller mountPoint closeErr system slot) := by
  rw [NotifyingFilesystem.cleanupStep]
  split
  · exact h.close
  · exact h

/-- What every round of the emergency closes keeps, an unmount keeps. -/
theorem umount_keeps {P : NotifyingFilesystem → Prop} {mountPoint : Path}
    {answers : Filesystem.UmountAnswers} (h : P system)
    (hround : ∀ system slot, P system →
      P (NotifyingFilesystem.cleanupStep caller mountPoint answers.closeErr system slot))
    (hremoved : ∀ (system : NotifyingFilesystem) partitions mounts, P system →
      P { system with fs := { system.fs with partitions, mounts } }) :
    P (system.umount caller mountPoint answers).2 := by
  have hrounds : P (system.cleanupOpenedFiles caller mountPoint answers.closeErr) := by
    rw [NotifyingFilesystem.cleanupOpenedFiles]
    generalize List.range system.fs.fds.data.length = slots
    induction slots generalizing system with
    | nil => exact h
    | cons slot slots ih => exact ih (hround _ slot h)
  rw [NotifyingFilesystem.umount]
  split
  · exact h
  · split
    · dsimp only
      split
      · exact hrounds
      · exact hremoved _ _ _ hrounds
    · exact h

theorem Tracks.umount {mountPoint : Path} {answers : Filesystem.UmountAnswers}
    (h : Tracks opened system) : Tracks opened (system.umount caller mountPoint answers).2 :=
  umount_keeps h (fun _ _ h => h.cleanupStep) fun _ _ _ h => h.congr rfl rfl

theorem Watched.umount {mountPoint : Path} {answers : Filesystem.UmountAnswers}
    (h : Watched watches system) : Watched watches (system.umount caller mountPoint answers).2 :=
  umount_keeps h (fun _ _ h => h.cleanupStep) fun _ _ _ h => h.congr rfl

theorem emplace_of_none {n : Notifier} {item : PathItem} (h : entry n.fdMap fd = none) :
    n.emplace fd item = { n with fdMap := (fd, item) :: n.fdMap } := by
  rw [Notifier.emplace, if_neg fun hany => ?_]
  obtain ⟨fname, hmem, hfd⟩ := List.any_eq_true.1 hany
  exact List.find?_eq_none.1 (entry_eq_none.1 h) fname hmem hfd

/-- The new descriptor had no path, so that it gets this one. -/
theorem open_succeeded {path : Path} {flags : UInt32} {answer : Option Int}
    (htracks : Tracks opened system)
    (h : system.fs.opens caller.cwd path flags answer = true) :
    ∃ file sent, system.open caller path flags answer =
      ((addFilehandle system.fs.fds file).1, sent,
        ⟨{ system.fs with fds := (addFilehandle system.fs.fds file).2 },
          { system.notifier with
            fdMap := ((addFilehandle system.fs.fds file).1,
              ⟨path, flags &&& Filesystem.accMode = 0⟩) :: system.notifier.fdMap }⟩) := by
  obtain ⟨file, hfs⟩ := Filesystem.open_of_opens h
  have hfree := (@findFilehandle_addFilehandle _ system.fs.fds file 0 htracks.sound).1
  refine ⟨file, (system.notifier.notifyOpen caller path (addFilehandle system.fs.fds file).1
    (flags &&& Filesystem.accMode = 0)).1, ?_⟩
  rw [NotifyingFilesystem.open, hfs]
  dsimp only
  rw [if_pos h, Notifier.notifyOpen, emplace_of_none (htracks.gone _ hfree)]

theorem open_failed {path : Path} {flags : UInt32} {answer : Option Int}
    (h : ¬ system.fs.opens caller.cwd path flags answer = true) :
    (system.open caller path flags answer).2.2 = system := by
  rw [NotifyingFilesystem.open]
  dsimp only
  rw [if_neg h, Filesystem.open_of_not_opens h]

structure Inv (s : Session) : Prop where
  tracks : Tracks s.opened s.system
  watched : Watched s.watches s.system

theorem inv_initial {fstypes : Path → Option FilesystemOperations} : Inv (initial fstypes) := by
  refine ⟨⟨HandleMapper.sound_empty, fun _ _ => rfl, fun fd hopen => ?_⟩, rfl, fun watch hmem => ?_⟩
  · refine absurd ?_ hopen
    show findFilehandle HandleMapper.empty fd = none
    rw [findFilehandle_eq]
    split <;> rfl
  · exact absurd hmem List.not_mem_nil

theorem inv_open {path : Path} {flags : UInt32} {answer : Option Int} (h : Inv s)
    (hagreed : Agreed s (.open caller path flags answer)) :
    Inv (step mgr s (.open caller path flags answer)) := by
  rw [step]
  dsimp only
  by_cases hopens : s.system.fs.opens caller.cwd path flags answer = true
  · obtain ⟨file, sent, hopen⟩ := open_succeeded h.tracks hopens
    rw [if_pos hopens, hopen]
    refine ⟨⟨h.tracks.sound.insert, fun fd hgone => ?_, fun fd hknown => ?_⟩,
      h.watched.events, h.watched.named⟩
    · change findFilehandle (addFilehandle s.system.fs.fds file).2 fd = none at hgone
      rw [(findFilehandle_addFilehandle h.tracks.sound).2] at hgone
      split at hgone
      · exact absurd hgone (by simp)
      · next hne =>
          show entry (_ :: s.system.notifier.fdMap) fd = none
          rw [entry_cons, if_neg hne]
          exact h.tracks.gone fd hgone
    · change findFilehandle (addFilehandle s.system.fs.fds file).2 fd ≠ none at hknown
      rw [(findFilehandle_addFilehandle h.tracks.sound).2] at hknown
      show ∃ o, entry (_ :: s.opened) fd = some o ∧ _ ∧
        entry (_ :: s.system.notifier.fdMap) fd = _
      rw [entry_cons, entry_cons]
      split at hknown
      · next heq =>
          rw [if_pos heq, if_pos heq]
          exact ⟨_, rfl, hagreed.2 hopens, rfl⟩
      · next hne =>
          rw [if_neg hne, if_neg hne]
          exact h.tracks.known fd hknown
  · rw [if_neg hopens, open_failed hopens]
    exact h

theorem inv_register {path : Path} {owner : Nat} {flags : UInt32} (h : Inv s)
    (hspelled : Spelled caller.cwd path) :
    Inv (step mgr s (.register caller path owner flags)) := by
  obtain ⟨hname, hroot⟩ := hspelled
  rw [step, Notifier.registerPath]
  dsimp only
  split
  · next notifier hregistered =>
      split at hregistered
      · exact absurd hregistered (by simp)
      · obtain rfl := Option.some.inj hregistered
        refine ⟨h.tracks.congr rfl rfl, ?_, fun watch hmem => ?_⟩
        · show s.system.notifier.events ++ _ = s.watches ++ _
          rw [h.watched.events, hname]
        · rcases List.mem_append.1 hmem with hin | hin
          · exact h.watched.named watch hin
          · rw [List.mem_singleton.1 hin]
            exact named_absolutePath hroot
  · exact h

theorem inv_step {c : Call} (h : Inv s) (hagreed : Agreed s c) : Inv (step mgr s c) := by
  cases c with
  | mount devOrPart target fsType flags err =>
      exact ⟨tracks_mount h.tracks, h.watched.events, h.watched.named⟩
  | umount caller mountPoint answers => exact ⟨h.tracks.umount, h.watched.umount⟩
  | «open» caller path flags answer => exact inv_open h hagreed
  | close caller fd err => exact ⟨h.tracks.close, h.watched.close⟩
  | register caller path owner flags => exact inv_register h hagreed.2
  | unregister item =>
      refine ⟨h.tracks.congr rfl rfl, ?_, fun watch hmem => ?_⟩
      · show s.system.notifier.events.eraseIdx item = s.watches.eraseIdx item
        rw [h.watched.events]
      · exact h.watched.named watch (List.mem_of_mem_eraseIdx hmem)

/-! ## Runs -/

theorem everyClose_noticed {c : Call} (h : Inv s) (hagreed : Agreed s c) :
    EveryClose (Noticed s.watches s.opened) s.system c := by
  cases c with
  | close caller fd err => exact noticed_of_inPlace h.tracks h.watched hagreed.1
  | umount caller mountPoint answers =>
      intro mp hfind hops
      refine (@everyStep_of_rule _ _
        (fun system => Tracks s.opened system ∧ Watched s.watches system) _ _ _ ?_ ?_ _ _
        ⟨h.tracks, h.watched⟩ (hagreed.1 mp hfind hops)).1
      · intro system slot hsystem hplace hon
        exact noticed_of_inPlace hsystem.1 hsystem.2 (hplace hon)
      · intro system slot hsystem _
        exact ⟨hsystem.1.cleanupStep, hsystem.2.cleanupStep⟩
  | mount | «open» | register | unregister => trivial

/-- In a run in which the notifier makes the same of the paths as the file system, and a
descriptor with a relative path is closed in the directory it was opened in, every close is
told to those who hear of it. -/
theorem closes_noticed {fstypes : Path → Option FilesystemOperations} {calls : List Call}
    (h : EveryStep Agreed (step mgr) (initial fstypes) calls) :
    EveryStep (fun s c => EveryClose (Noticed s.watches s.opened) s.system c) (step mgr)
      (initial fstypes) calls :=
  (@everyStep_of_rule _ _ Inv _ Agreed _ (fun _ _ => everyClose_noticed) (fun _ _ => inv_step)
    _ _ inv_initial h).1

/-- A thread in a directory; each service runs in the thread of its number. -/
def callerIn (cwd : Path) (thread : Nat) : Caller := ⟨cwd, thread, fun _ => true, id⟩

/-- Service 1 subscribes to `/a`, where a disk is mounted; a thread opens `f` in `/a` and
closes it. -/
def openAndClose (thread : Nat) : List Call :=
  [.mount [0x64] [0x2F, 0x61] [0x66] 0 0,
    .register (callerIn [0x2F] 1) [0x2F, 0x61] 1 InotifyFlags.closeNowrite,
    .open (callerIn [0x2F, 0x61] thread) [0x66] 0 (some 0),
    .close (callerIn [0x2F, 0x61] thread) 3 0]

def anyDisk : DiskManager := ⟨fun _ => some 0, fun _ => some ⟨[], fun _ => 4096⟩⟩

theorem closes_noticed_other :
    EveryStep (fun s c => EveryClose (Noticed s.watches s.opened) s.system c) (step anyDisk)
      (initial fun _ => some ⟨false⟩) (openAndClose 2) := by
  refine closes_noticed ⟨⟨trivial, trivial⟩, ⟨trivial, by decide⟩, ⟨trivial, fun _ => by decide⟩,
    ⟨fun _ o ho => .inr ?_, trivial⟩, trivial⟩
  obtain rfl := Option.some.inj ho
  rfl

/-- A successful close is told to every live service with a subscription on the path that
was opened or above it, once. -/
def EachServiceNoticed (watches : List (Path × ServiceItem)) (opened : List (Int × Opened))
    (s : NotifyingFilesystem) (caller : Caller) (fd err : Int) : Prop :=
  (s.close caller fd err).1 = 0 →
    ∃ o, entry opened fd = some o ∧
      (s.close caller fd err).2.1.Perm
        (((watches.filter fun watch => OnWay watch.1 o.name ∧
            watch.2.subscribedEvents &&& o.closeMask ≠ 0 ∧
            caller.alive watch.2.service).map fun watch => watch.2.service).dedup.map
          fun svc => ⟨svc, o.closeMask, o.name, []⟩)

/-- A service that closes a file itself is not told. -/
theorem own_close_untold :
    ¬ EveryStep (fun s c => EveryClose (EachServiceNoticed s.watches s.opened) s.system c)
      (step anyDisk) (initial fun _ => some ⟨false⟩) (openAndClose 1) := by
  rintro ⟨-, -, -, hclose, -⟩
  obtain ⟨o, ho, hperm⟩ := hclose (by decide)
  obtain rfl := Option.some.inj ho
  exact absurd hperm.length_eq (by decide)

/-! ## Without the notifier -/

theorem cleanupStep_of_onMount {fs : Filesystem} {mountPoint : Path} {closeErr : Nat → Int}
    {slot : Nat} : Filesystem.cleanupStep mountPoint closeErr fs slot =
      if fs.onMount mountPoint slot then
        (fs.close (slot + firstFileDescriptor) (closeErr slot)).2
      else fs := by
  rw [Filesystem.cleanupStep]
  split
  · next hget => rw [if_neg (by rw [Filesystem.onMount, hget]; exact Bool.false_ne_true)]
  · next filp hget =>
      split
      · next hmp =>
          rw [if_neg]
          rw [Filesystem.onMount, hget]
          dsimp only
          rw [hmp]
          exact Bool.false_ne_true
      · next mp hmp =>
          have hon : fs.onMount mountPoint slot = compareMountPoints mp.path mountPoint := by
            rw [Filesystem.onMount, hget]
            dsimp only
            rw [hmp]
          rw [hon]

theorem close_fs : (system.close caller fd err).2.2.fs = (system.fs.close fd err).2 := by
  rw [NotifyingFilesystem.close]
  dsimp only
  split <;> rfl

theorem cleanupStep_fs {mountPoint : Path} {closeErr : Nat → Int} {slot : Nat} :
    (NotifyingFilesystem.cleanupStep caller mountPoint closeErr system slot).fs =
      Filesystem.cleanupStep mountPoint closeErr system.fs slot := by
  rw [cleanupStep_of_onMount, NotifyingFilesystem.cleanupStep, ← @close_fs system caller]
  split <;> rfl

theorem cleanupOpenedFiles_fs {mountPoint : Path} {closeErr : Nat → Int} :
    (system.cleanupOpenedFiles caller mountPoint closeErr).fs =
      system.fs.cleanupOpenedFiles mountPoint closeErr := by
  rw [NotifyingFilesystem.cleanupOpenedFiles, Filesystem.cleanupOpenedFiles]
  exact (List.foldl_hom NotifyingFilesystem.fs fun _ _ => cleanupStep_fs.symm).symm

theorem umount_fs {mountPoint : Path} {answers : Filesystem.UmountAnswers} :
    (system.umount caller mountPoint answers).2.fs = (system.fs.umount mountPoint answers).2 := by
  rw [NotifyingFilesystem.umount, Filesystem.umount, ← @cleanupOpenedFiles_fs system caller]
  cases system.fs.findMount mountPoint with
  | none => rfl
  | some mp =>
      dsimp only
      by_cases hops : (system.fs.fsOps mp).isSome
      · rw [if_pos hops, if_pos hops]
        split <;> rfl
      · rw [if_neg hops, if_neg hops]

/-- The call as the file system sees it, when it sees it. -/
def Call.toFs : Call → Option Filesystem.Call
  | .mount devOrPart target fsType flags err => some (.mount devOrPart target fsType flags err)
  | .umount _ mountPoint answers => some (.umount mountPoint answers)
  | .open caller path flags answer => some (.open caller.cwd path flags answer)
  | .close _ fd err => some (.close fd err)
  | .register .. => none
  | .unregister _ => none

/-- The notifier changes nothing of what the calls do to the file system. -/
theorem run_fs {calls : List Call} : (calls.foldl (step mgr) s).system.fs =
    (calls.filterMap Call.toFs).foldl (Filesystem.step mgr) s.system.fs := by
  induction calls generalizing s with
  | nil => rfl
  | cons c calls ih =>
      rw [List.foldl_cons, ih]
      cases c with
      | mount devOrPart target fsType flags err => rfl
      | umount caller mountPoint answers =>
          show _ = List.foldl _ (s.system.fs.umount mountPoint answers).2 _
          rw [← @umount_fs s.system caller]
          rfl
      | «open» caller path flags answer =>
          have hopen : (s.system.open caller path flags answer).2.2.fs =
              (s.system.fs.open caller.cwd path flags answer).2 := by
            rw [NotifyingFilesystem.open]
            dsimp only
            split <;> rfl
          show _ = List.foldl _ (s.system.fs.open caller.cwd path flags answer).2 _
          rw [← hopen]
          rfl
      | close caller fd err =>
          show _ = List.foldl _ (s.system.fs.close fd err).2 _
          rw [← @close_fs s.system caller]
          rfl
      | register caller path owner flags =>
          rw [step]
          split <;> rfl
      | unregister item => rfl

end Session

end MuditaOS.Vfs

import MuditaOS.Lib.Keyed
import MuditaOS.Vfs.Filesystem

/-!
# Two paths on one mount

`find_mount_point` finds the mount with the longest target that covers a path. The
calls on two paths look for that of the first one only, and then compare as many
bytes of the paths as they were given as the target is long. So they do as they should
exactly where these bytes tell whether the target is the longest one over the second
path too.
-/

namespace MuditaOS.Vfs.Filesystem

variable {fs : Filesystem} {cwd path path2 target : Path} {mntp mntp' : Path × MountPoint}
  {mp : MountPoint} {n : Nat}

/-! ## The longest target -/

/-- The target is the path, or the path goes on with a slash behind it. -/
def Covers (target path : Path) : Prop :=
  target <+: path ∧
    (1 < target.length → path.getD target.length 0 = pathSeparator ∨
      path.getD target.length 0 = 0)

instance : Decidable (Covers target path) := inferInstanceAs (Decidable (_ ∧ _))

/-- A mount with the longest target that covers the path. -/
def Nearest (fs : Filesystem) (path : Path) (mntp : Path × MountPoint) : Prop :=
  mntp ∈ fs.mounts ∧ Covers mntp.1 path ∧
    ∀ other ∈ fs.mounts, Covers other.1 path → other.1.length ≤ mntp.1.length

instance : Decidable (Nearest fs path mntp) := inferInstanceAs (Decidable (_ ∧ _ ∧ _))

/-- A map from normalised absolute paths to objects. -/
structure Table (fs : Filesystem) : Prop where
  targets : (fs.mounts.map Prod.fst).Nodup
  ids : (fs.mounts.map fun mntp => mntp.2.id).Nodup
  normal : ∀ mntp ∈ fs.mounts, normalizePath mntp.1 = mntp.1

theorem findMountPointStep_eq {found : Option MountPoint × Nat} :
    findMountPointStep path found mntp =
      if Covers mntp.1 path ∧ found.2 ≤ mntp.1.length then (some mntp.2, mntp.1.length)
      else found := by
  rw [findMountPointStep]
  split
  · next hskip =>
      rw [if_neg]
      rintro ⟨⟨hbegins, -⟩, hle⟩
      have hlen := hbegins.length_le
      omega
  · next hskip =>
      rw [not_or, Nat.not_lt, Nat.not_lt] at hskip
      split
      · next hbehind =>
          rw [if_neg]
          rintro ⟨⟨-, hslash⟩, -⟩
          rcases hslash hbehind.1 with h | h
          · exact hbehind.2.1 h
          · exact hbehind.2.2 h
      · next hbehind =>
          have hslash : 1 < mntp.1.length → path.getD mntp.1.length 0 = pathSeparator ∨
              path.getD mntp.1.length 0 = 0 := by
            intro hlong
            by_cases hsep : path.getD mntp.1.length 0 = pathSeparator
            · exact .inl hsep
            · exact .inr (Classical.byContradiction fun hzero => hbehind ⟨hlong, hsep, hzero⟩)
          split
          · next htake =>
              rw [if_pos ⟨⟨List.prefix_iff_eq_take.2 htake.symm, hslash⟩, hskip.1⟩]
          · next htake =>
              rw [if_neg fun h => htake (List.prefix_iff_eq_take.1 h.1.1).symm]

/-- What the search has found so far: nothing, where no target covers the path, or the
longest one that does. -/
def FoundIn (mounts : List (Path × MountPoint)) (path : Path)
    (found : Option MountPoint × Nat) : Prop :=
  (found = (none, 0) ∧ ∀ other ∈ mounts, ¬ Covers other.1 path) ∨
    ∃ mntp ∈ mounts, found = (some mntp.2, mntp.1.length) ∧ Covers mntp.1 path ∧
      ∀ other ∈ mounts, Covers other.1 path → other.1.length ≤ mntp.1.length

theorem foundIn_step {mounts : List (Path × MountPoint)} {found : Option MountPoint × Nat}
    (h : FoundIn mounts path found) :
    FoundIn (mounts ++ [mntp]) path (findMountPointStep path found mntp) := by
  rw [findMountPointStep_eq]
  split
  · next hcovers =>
      refine .inr ⟨mntp, List.mem_append_right _ (List.mem_singleton_self _), rfl, hcovers.1, ?_⟩
      intro other hother hcov
      rcases List.mem_append.1 hother with hother | hother
      · rcases h with ⟨-, hnone⟩ | ⟨best, -, rfl, -, hmax⟩
        · exact absurd hcov (hnone other hother)
        · exact (hmax other hother hcov).trans hcovers.2
      · rw [List.mem_singleton.1 hother]
  · next hcovers =>
      rcases h with ⟨rfl, hnone⟩ | ⟨best, hbest, rfl, hcov, hmax⟩
      · refine .inl ⟨rfl, fun other hother hcov => ?_⟩
        rcases List.mem_append.1 hother with hother | hother
        · exact hnone other hother hcov
        · rw [List.mem_singleton.1 hother] at hcov
          exact hcovers ⟨hcov, Nat.zero_le _⟩
      · refine .inr ⟨best, List.mem_append_left _ hbest, rfl, hcov, fun other hother hcov => ?_⟩
        rcases List.mem_append.1 hother with hother | hother
        · exact hmax other hother hcov
        · rw [List.mem_singleton.1 hother] at hcov ⊢
          exact Nat.le_of_not_le fun hle => hcovers ⟨hcov, hle⟩

theorem foundIn_foldl {seen mounts : List (Path × MountPoint)}
    {found : Option MountPoint × Nat} (h : FoundIn seen path found) :
    FoundIn (seen ++ mounts) path (mounts.foldl (findMountPointStep path) found) := by
  induction mounts generalizing seen found with
  | nil => rwa [List.append_nil]
  | cons mntp mounts ih =>
      rw [List.foldl_cons, List.append_cons]
      exact ih (foundIn_step h)

theorem findMountPoint_found : FoundIn fs.mounts path (fs.findMountPoint path) :=
  @foundIn_foldl path [] fs.mounts _ (.inl ⟨rfl, fun _ h => absurd h List.not_mem_nil⟩)

/-- Two targets of one length over one path are the same. -/
theorem Nearest.unique (htable : Table fs) (h : fs.Nearest path mntp)
    (h' : fs.Nearest path mntp') : mntp = mntp' := by
  obtain ⟨hmem, hcov, hmax⟩ := h
  obtain ⟨hmem', hcov', hmax'⟩ := h'
  have hlen := Nat.le_antisymm (hmax' mntp hmem hcov) (hmax mntp' hmem' hcov')
  refine List.inj_on_of_nodup_map htable.targets hmem hmem' ?_
  rw [List.prefix_iff_eq_take.1 hcov.1, hlen, ← List.prefix_iff_eq_take.1 hcov'.1]

theorem findMountPoint_eq_some (htable : Table fs) :
    fs.findMountPoint path = (some mp, n) ↔
      ∃ target, fs.Nearest path (target, mp) ∧ target.length = n := by
  have hfound := @findMountPoint_found fs path
  constructor
  · intro h
    rw [h] at hfound
    rcases hfound with ⟨hnone, -⟩ | ⟨⟨target, mp'⟩, hmem, heq, hcov, hmax⟩
    · exact absurd (congrArg Prod.fst hnone) (by simp)
    · obtain ⟨hmp, hn⟩ := Prod.mk.inj heq
      obtain rfl := Option.some.inj hmp
      exact ⟨target, ⟨hmem, hcov, hmax⟩, hn.symm⟩
  · rintro ⟨target, hnear, rfl⟩
    rcases hfound with ⟨-, hnone⟩ | ⟨mntp, hmem, heq, hcov, hmax⟩
    · exact absurd hnear.2.1 (hnone _ hnear.1)
    · rw [heq, Nearest.unique htable ⟨hmem, hcov, hmax⟩ hnear]

theorem findMountPoint_fst_eq_some (htable : Table fs) :
    (fs.findMountPoint path).1 = some mp ↔ ∃ target, fs.Nearest path (target, mp) := by
  constructor
  · intro h
    obtain ⟨target, hnear, -⟩ := (findMountPoint_eq_some htable).1 (Prod.ext h rfl)
    exact ⟨target, hnear⟩
  · intro ⟨target, hnear⟩
    rw [(findMountPoint_eq_some htable).2 ⟨target, hnear, rfl⟩]

/-! ## Calls on two paths -/

/-- The driver is called exactly where both paths resolve to one writable mount, and the
error is that of two devices where they resolve to different ones. -/
def OnOneMount (fs : Filesystem) (cwd path path2 : Path) (invoked : Invoked) : Prop :=
  ((∃ mp abspath abspath2, invoked = .driver mp abspath abspath2) ↔
    ∃ mp, (fs.findMountPoint (absolutePath cwd path)).1 = some mp ∧
      (fs.findMountPoint (absolutePath cwd path2)).1 = some mp ∧ mp.isRo = false) ∧
  ∀ mp mp2, (fs.findMountPoint (absolutePath cwd path)).1 = some mp →
    (fs.findMountPoint (absolutePath cwd path2)).1 = some mp2 → mp ≠ mp2 →
    invoked = .returns (-EXDEV)

/-- Where the mount of the first path is writable, the paths as given begin alike, up to
the length of its target, exactly if it is the mount of the second path as well, and
then its driver is registered; no call of a driver follows from a second path without a
mount. Where it is read-only, the second path is on no other mount. -/
def BytesTell (fs : Filesystem) (cwd path path2 : Path) : Prop :=
  ∀ target mp, fs.Nearest (absolutePath cwd path) (target, mp) →
    if mp.isRo then
      ∀ other, fs.Nearest (absolutePath cwd path2) other → other = (target, mp)
    else if fs.Nearest (absolutePath cwd path2) (target, mp) then
      path.take target.length = path2.take target.length ∧ (fs.fsOps mp).isSome
    else
      path.take target.length ≠ path2.take target.length ∨
        (∀ other, ¬ fs.Nearest (absolutePath cwd path2) other) ∧ fs.fsOps mp = none

/-- Two mounts of a table are told apart by their mount points. -/
theorem Nearest.mp_inj (htable : Table fs) {path path' : Path}
    (h : fs.Nearest path mntp) (h' : fs.Nearest path' mntp') (hmp : mntp.2 = mntp'.2) :
    mntp = mntp' :=
  List.inj_on_of_nodup_map htable.ids h.1 h'.1 (congrArg MountPoint.id hmp)

theorem findMountPoint_nearest (htable : Table fs) (h : fs.Nearest path (target, mp)) :
    fs.findMountPoint path = (some mp, target.length) :=
  (findMountPoint_eq_some htable).2 ⟨target, h, rfl⟩

theorem bytesTell_iff (htable : Table fs)
    (hnear : fs.Nearest (absolutePath cwd path) (target, mp)) :
    BytesTell fs cwd path path2 ↔
      if mp.isRo then
        ∀ other, fs.Nearest (absolutePath cwd path2) other → other = (target, mp)
      else if fs.Nearest (absolutePath cwd path2) (target, mp) then
        path.take target.length = path2.take target.length ∧ (fs.fsOps mp).isSome
      else
        path.take target.length ≠ path2.take target.length ∨
          (∀ other, ¬ fs.Nearest (absolutePath cwd path2) other) ∧ fs.fsOps mp = none := by
  refine ⟨fun h => h target mp hnear, fun h target' mp' hnear' => ?_⟩
  obtain ⟨rfl, rfl⟩ := Prod.mk.inj (hnear.unique htable hnear')
  exact h

/-- With the mount of the first path known, the property is about that of the second. -/
theorem onOneMount_of_nearest (htable : Table fs) {invoked : Invoked}
    (hnear : fs.Nearest (absolutePath cwd path) (target, mp)) :
    OnOneMount fs cwd path path2 invoked ↔
      ((∃ mp abspath abspath2, invoked = .driver mp abspath abspath2) ↔
        fs.Nearest (absolutePath cwd path2) (target, mp) ∧ mp.isRo = false) ∧
      ∀ other, fs.Nearest (absolutePath cwd path2) other → other ≠ (target, mp) →
        invoked = .returns (-EXDEV) := by
  have hsecond : ∀ mp', (fs.findMountPoint (absolutePath cwd path2)).1 = some mp' ↔
      ∃ target', fs.Nearest (absolutePath cwd path2) (target', mp') := fun _ =>
    findMountPoint_fst_eq_some htable
  have hsame : (fs.findMountPoint (absolutePath cwd path2)).1 = some mp ↔
      fs.Nearest (absolutePath cwd path2) (target, mp) := by
    refine (hsecond mp).trans ⟨?_, fun h => ⟨target, h⟩⟩
    intro ⟨target', h⟩
    rwa [hnear.mp_inj htable h rfl]
  rw [OnOneMount, findMountPoint_nearest htable hnear]
  simp only [Option.some.injEq, exists_eq_left', hsame]
  refine and_congr_right fun _ => ⟨fun h other hother hne => ?_, ?_⟩
  · refine h mp other.2 rfl ((hsecond _).2 ⟨other.1, hother⟩) fun hmp => hne ?_
    exact (hnear.mp_inj htable hother hmp).symm
  · rintro h mp' mp2 rfl hmp2 hne
    obtain ⟨target2, hother⟩ := (hsecond _).1 hmp2
    exact h _ hother fun heq => hne (congrArg Prod.snd heq).symm

theorem onOneMount_returns (htable : Table fs) {err : Int}
    (hnear : fs.Nearest (absolutePath cwd path) (target, mp)) :
    OnOneMount fs cwd path path2 (.returns err) ↔
      (fs.Nearest (absolutePath cwd path2) (target, mp) → mp.isRo = true) ∧
      ∀ other, fs.Nearest (absolutePath cwd path2) other → other ≠ (target, mp) →
        err = -EXDEV := by
  have hcalled : ¬ ∃ mp abspath abspath2, Invoked.returns err = .driver mp abspath abspath2 :=
    fun ⟨_, _, _, h⟩ => Invoked.noConfusion h
  rw [onOneMount_of_nearest htable hnear, iff_false_left hcalled, not_and, Bool.not_eq_false]
  exact and_congr_right fun _ => forall₃_congr fun _ _ _ => by rw [Invoked.returns.injEq]

theorem onOneMount_driver (htable : Table fs) {abspath abspath2 : Path} {mp' : MountPoint}
    (hnear : fs.Nearest (absolutePath cwd path) (target, mp)) :
    OnOneMount fs cwd path path2 (.driver mp' abspath abspath2) ↔
      fs.Nearest (absolutePath cwd path2) (target, mp) ∧ mp.isRo = false := by
  have hcalled : ∃ mp'' path path2,
      Invoked.driver mp' abspath abspath2 = .driver mp'' path path2 :=
    ⟨mp', abspath, abspath2, rfl⟩
  rw [onOneMount_of_nearest htable hnear, iff_true_left hcalled]
  refine and_iff_left_of_imp fun h other hother hne => ?_
  exact absurd (hother.unique htable h.1) hne

/-- What a call on two paths comes to, once the first path has its mount. -/
theorem invokeFopsSameMp_nearest (htable : Table fs) (hpath : path ≠ []) (hpath2 : path2 ≠ [])
    (hnear : fs.Nearest (absolutePath cwd path) (target, mp)) :
    fs.invokeFopsSameMp cwd path path2 =
      if mp.isRo then .returns (-EACCES)
      else if path.take target.length ≠ path2.take target.length then .returns (-EXDEV)
      else if (fs.fsOps mp).isSome then
        .driver mp (absolutePath cwd path) (absolutePath cwd path2)
      else .returns (- EIO) := by
  rw [invokeFopsSameMp, if_neg (not_or.2 ⟨hpath, hpath2⟩)]
  dsimp only
  rw [findMountPoint_nearest htable hnear]

theorem onOneMount_iff (htable : Table fs) (hpath : path ≠ []) (hpath2 : path2 ≠ []) :
    OnOneMount fs cwd path path2 (fs.invokeFopsSameMp cwd path path2) ↔
      BytesTell fs cwd path path2 := by
  by_cases hfound : ∃ mntp, fs.Nearest (absolutePath cwd path) mntp
  · obtain ⟨⟨target, mp⟩, hnear⟩ := hfound
    rw [bytesTell_iff htable hnear, invokeFopsSameMp_nearest htable hpath hpath2 hnear]
    cases hro : mp.isRo with
    | true =>
        rw [if_pos rfl, if_pos rfl, onOneMount_returns htable hnear]
        rw [and_iff_right fun _ => hro]
        refine forall₂_congr fun other _ => ?_
        exact ⟨fun h => Classical.byContradiction fun hne => absurd (h hne) (by decide),
          fun h hne => absurd h hne⟩
    | false =>
        rw [if_neg Bool.false_ne_true, if_neg Bool.false_ne_true]
        by_cases htake : path.take target.length = path2.take target.length
        · rw [if_neg (not_not_intro htake)]
          cases hops : fs.fsOps mp with
          | some ops =>
              rw [Option.isSome_some, if_pos rfl, onOneMount_driver htable hnear]
              simp [hro, htake]
          | none =>
              rw [Option.isSome_none, if_neg Bool.false_ne_true, onOneMount_returns htable hnear,
                hro]
              split
              · next hsecond =>
                  exact iff_of_false (fun h => Bool.false_ne_true (h.1 hsecond))
                    fun h => Bool.false_ne_true h.2
              · next hsecond =>
                  refine ⟨fun h => .inr ⟨fun other hother => ?_, rfl⟩, fun h => ?_⟩
                  · have herr := h.2 other hother fun heq => hsecond (heq ▸ hother)
                    exact absurd herr (by decide)
                  · have hno := (h.resolve_left (not_not_intro htake)).1
                    exact ⟨fun h => absurd h hsecond, fun other hother => absurd hother (hno other)⟩
        · rw [if_pos htake, onOneMount_returns htable hnear]
          simp [hro, htake]
  · have hnone : (fs.findMountPoint (absolutePath cwd path)).1 = none := by
      rw [Option.eq_none_iff_forall_ne_some]
      intro mp hmp
      obtain ⟨target, hnear⟩ := (findMountPoint_fst_eq_some htable).1 hmp
      exact hfound ⟨_, hnear⟩
    refine iff_of_true ?_ fun target mp hnear => absurd ⟨_, hnear⟩ hfound
    rw [OnOneMount, invokeFopsSameMp, if_neg (not_or.2 ⟨hpath, hpath2⟩), hnone]
    dsimp only
    split
    · simp
    · next mountp pathpos heq =>
        rw [heq] at hnone
        exact absurd hnone (by simp)

/-- For two paths that are absolute and normalised already, the bytes tell where the second
one begins with the target of the first only if that is its mount too: it does not
go on with another name, nor into a mount below. -/
theorem bytesTell_of_normal (htable : Table fs) (hpath : absolutePath cwd path = path)
    (hpath2 : absolutePath cwd path2 = path2) (hnear : fs.Nearest path (target, mp))
    (hrw : mp.isRo = false) (hops : (fs.fsOps mp).isSome) :
    BytesTell fs cwd path path2 ↔ (target <+: path2 → fs.Nearest path2 (target, mp)) := by
  have htake : path.take target.length = target := (List.prefix_iff_eq_take.1 hnear.2.1.1).symm
  have hsome : fs.fsOps mp ≠ none := by
    intro h
    rw [h] at hops
    exact Bool.false_ne_true hops
  rw [bytesTell_iff htable (hpath.symm ▸ hnear), hpath2, hrw, if_neg Bool.false_ne_true, htake]
  split
  · next hsecond =>
      exact iff_of_true ⟨List.prefix_iff_eq_take.1 hsecond.2.1.1, hops⟩ fun _ => hsecond
  · next hsecond =>
      rw [or_iff_left fun h => hsome h.2, ne_eq, ← List.prefix_iff_eq_take]
      exact ⟨fun h hbegins => absurd hbegins h, fun h hbegins => hsecond (h hbegins)⟩

theorem twoPaths_iff (htable : Table fs) (hpath : path ≠ []) (hpath2 : path2 ≠ []) :
    (OnOneMount fs cwd path path2 (fs.rename cwd path path2) ∧
      OnOneMount fs cwd path path2 (fs.link cwd path path2) ∧
      OnOneMount fs cwd path path2 (fs.symlink cwd path path2)) ↔
        BytesTell fs cwd path path2 := by
  have hiff := @onOneMount_iff fs cwd path path2 htable hpath hpath2
  rw [rename, link, symlink, hiff, and_self, and_self]

/-- A disk mounted at `/a`. -/
def mountedAtA : Filesystem :=
  { initial fun _ => some ⟨false⟩ with
    mounts := [([0x2F, 0x61], ⟨0, ⟨0, -1, [0x64]⟩, [0x2F, 0x61], 0, [0x66]⟩)]
    partitions := [[0x64]]
    made := 1 }

theorem table_mountedAtA : Table mountedAtA := by
  constructor <;> decide

/-- `/a/x` and `/a/y`. -/
theorem twoPaths_iff_siblings :
    (OnOneMount mountedAtA [0x2F] [0x2F, 0x61, 0x2F, 0x78] [0x2F, 0x61, 0x2F, 0x79]
        (mountedAtA.rename [0x2F] [0x2F, 0x61, 0x2F, 0x78] [0x2F, 0x61, 0x2F, 0x79]) ∧
      OnOneMount mountedAtA [0x2F] [0x2F, 0x61, 0x2F, 0x78] [0x2F, 0x61, 0x2F, 0x79]
        (mountedAtA.link [0x2F] [0x2F, 0x61, 0x2F, 0x78] [0x2F, 0x61, 0x2F, 0x79]) ∧
      OnOneMount mountedAtA [0x2F] [0x2F, 0x61, 0x2F, 0x78] [0x2F, 0x61, 0x2F, 0x79]
        (mountedAtA.symlink [0x2F] [0x2F, 0x61, 0x2F, 0x78] [0x2F, 0x61, 0x2F, 0x79])) ↔
      BytesTell mountedAtA [0x2F] [0x2F, 0x61, 0x2F, 0x78] [0x2F, 0x61, 0x2F, 0x79] :=
  twoPaths_iff table_mountedAtA (List.cons_ne_nil _ _) (List.cons_ne_nil _ _)

/-- In the directory `/a`, the file `x` is not renamed to `y`. -/
theorem renamed_within : Table mountedAtA ∧
    ¬ OnOneMount mountedAtA [0x2F, 0x61] [0x78] [0x79]
      (mountedAtA.rename [0x2F, 0x61] [0x78] [0x79]) := by
  refine ⟨table_mountedAtA, fun h => ?_⟩
  obtain ⟨mp, abspath, abspath2, hcalled⟩ := h.1.2 ⟨_, rfl, rfl, rfl⟩
  exact absurd (hcalled.symm.trans (show _ = Invoked.returns (-EXDEV) by decide)) (by simp)

end MuditaOS.Vfs.Filesystem

import MuditaOS.Proofs.CloseNotices
import MuditaOS.Proofs.MountTable
import MuditaOS.Proofs.NormalPaths
import MuditaOS.Proofs.TwoPaths

/-!
# The innermost mount

By its names a path belongs to the mount whose target has the longest beginning of them.
The search of `find_mount_point` goes by bytes instead, with a look at the one behind the
target. The two agree exactly where an innermost target is spelt as the path spells it,
and no target that ends at a zero byte inside a name is longer. For a path without zero
bytes that is a target without a slash at its end and without two in a row.
-/

namespace MuditaOS.Vfs

open MuditaOS.Blkdev MuditaOS.Utils Components

variable {path target : Path} {names : List Path}

/-! ## Names of a beginning -/

theorem splitViewFrom_ne_nil {delim : UInt8} : ∀ {strv token : List UInt8}, token ≠ [] →
    splitViewFrom delim token strv ≠ [] := by
  intro strv
  induction strv with
  | nil =>
      intro token htoken
      rw [splitViewFrom, if_neg htoken]
      exact List.cons_ne_nil _ _
  | cons c cs ih =>
      intro token htoken
      rw [splitViewFrom, if_neg htoken]
      split
      · exact List.cons_ne_nil _ _
      · exact ih (List.append_ne_nil_of_left_ne_nil htoken _)

theorem length_splitViewFrom_append {delim : UInt8} {back : List UInt8} :
    ∀ {front token : List UInt8}, (splitViewFrom delim token front).length ≤
      (splitViewFrom delim token (front ++ back)).length := by
  intro front
  induction front with
  | nil =>
      intro token
      rw [splitViewFrom, List.nil_append]
      split
      · exact Nat.zero_le _
      · next htoken => exact List.length_pos_of_ne_nil (splitViewFrom_ne_nil htoken)
  | cons c front ih =>
      intro token
      rw [splitViewFrom, List.cons_append, splitViewFrom]
      split
      · split
        · exact ih
        · exact Nat.succ_le_succ ih
      · exact ih

/-- A path that goes on has no fewer names. -/
theorem length_components_le (h : target <+: path) :
    (components target).length ≤ (components path).length := by
  obtain ⟨back, rfl⟩ := h
  rw [← splitView_eq_components, ← splitView_eq_components]
  exact length_splitViewFrom_append

namespace Filesystem

variable {fs : Filesystem} {cwd : Path} {fstypes : Path → Option FilesystemOperations}
  {mounts : List (Path × MountPoint)}

/-- What the path should belong to: a mount with as many of its names as any, or nothing
if there is no target with the first of them. -/
def Innermost (mounts : List (Path × MountPoint)) (path : Path) : Option MountPoint → Prop
  | none => ∀ mntp ∈ mounts, ¬ components mntp.1 <+: components path
  | some mp => ∃ target, (target, mp) ∈ mounts ∧ components target <+: components path ∧
      ∀ mntp ∈ mounts, components mntp.1 <+: components path →
        (components mntp.1).length ≤ (components target).length

/-- The target has the first names of the path, and the same bytes up to a slash, a zero
byte or the end. -/
def Spelt (target path : Path) : Prop :=
  Covers target path ∧ components target <+: components path

instance : Decidable (Spelt target path) := inferInstanceAs (Decidable (_ ∧ _))

structure Fits (mounts : List (Path × MountPoint)) (path : Path) : Prop where
  /-- No target that is spelt otherwise goes deeper. -/
  deepest : ∀ mntp ∈ mounts, components mntp.1 <+: components path →
    ∃ other ∈ mounts, Spelt other.1 path ∧
      (components mntp.1).length ≤ (components other.1).length
  /-- No target that ends inside a name is longer. -/
  longest : ∀ mntp ∈ mounts, Covers mntp.1 path →
    ∃ other ∈ mounts, Spelt other.1 path ∧ mntp.1.length ≤ other.1.length

theorem Covers.eq_of_length {other : Path} (h : Covers target path) (h' : Covers other path)
    (hlen : target.length = other.length) : target = other := by
  rw [List.prefix_iff_eq_take.1 h.1, List.prefix_iff_eq_take.1 h'.1, hlen]

/-- Of two targets that cover the path the longer one has no fewer names. -/
theorem Covers.length_components {other : Path} (h : Covers target path)
    (h' : Covers other path) (hle : target.length ≤ other.length) :
    (components target).length ≤ (components other).length :=
  length_components_le (List.prefix_of_prefix_length_le h.1 h'.1 hle)

theorem innermost_findMountPoint (hinv : Inv fs) :
    Innermost fs.mounts path (fs.findMountPoint path).1 ↔ Fits fs.mounts path := by
  rcases @findMountPoint_found fs path with ⟨hnone, hno⟩ | ⟨best, hbest, hsome, hcov, hmax⟩
  · rw [hnone]
    constructor
    · exact fun h => ⟨fun mntp hmem hnames => absurd hnames (h mntp hmem),
        fun mntp hmem hcovers => absurd hcovers (hno mntp hmem)⟩
    · intro h mntp hmem hnames
      obtain ⟨other, hother, hspelt, -⟩ := h.deepest mntp hmem hnames
      exact hno other hother hspelt.1
  · rw [hsome]
    constructor
    · intro ⟨target, hmem, hnames, hdeepest⟩
      have hsame := List.inj_on_of_nodup_map hinv.ids hmem hbest rfl
      rw [← hsame] at hcov hmax
      exact ⟨fun mntp hmntp h => ⟨_, hmem, ⟨hcov, hnames⟩, hdeepest mntp hmntp h⟩,
        fun mntp hmntp h => ⟨_, hmem, ⟨hcov, hnames⟩, hmax mntp hmntp h⟩⟩
    · intro h
      -- the longest target that covers the path is one of those spelt like it
      obtain ⟨other, hother, hspelt, hle⟩ := h.longest best hbest hcov
      have hlen := Nat.le_antisymm hle (hmax other hother hspelt.1)
      have hnames := hspelt.2
      rw [← hcov.eq_of_length hspelt.1 hlen] at hnames
      refine ⟨best.1, hbest, hnames, fun mntp hmem hprefix => ?_⟩
      obtain ⟨deep, hdeep, hspelt', hdeeper⟩ := h.deepest mntp hmem hprefix
      exact hdeeper.trans
        (hspelt'.1.length_components hcov (hmax deep hdeep hspelt'.1))

/-- Whatever was mounted and unmounted before, an absolute path belongs to its innermost
mount exactly if the targets fit its spelling. -/
theorem innermost_iff {mgr : DiskManager} {cs : List Call} :
    Innermost (cs.foldl (step mgr) (initial fstypes)).mounts (absolutePath cwd path)
        ((cs.foldl (step mgr) (initial fstypes)).findMountPoint (absolutePath cwd path)).1 ↔
      Fits (cs.foldl (step mgr) (initial fstypes)).mounts (absolutePath cwd path) :=
  innermost_findMountPoint (inv_run inv_initial)

/-- A disk is mounted at `/m/`. -/
def mountedWithSlash : Filesystem :=
  [Call.mount [0x64] [0x2F, 0x6D, 0x2F] [0x66] 0 0].foldl (step Session.anyDisk)
    (initial fun _ => some ⟨false⟩)

/-- `compareMountPoints` holds `/m/` for `/m`, and yet `/m/a` belongs to no mount. -/
theorem slash_behind_target :
    ¬ Innermost mountedWithSlash.mounts (absolutePath [0x2F] [0x2F, 0x6D, 0x2F, 0x61])
      (mountedWithSlash.findMountPoint (absolutePath [0x2F] [0x2F, 0x6D, 0x2F, 0x61])).1 := by
  have hnone : (mountedWithSlash.findMountPoint
      (absolutePath [0x2F] [0x2F, 0x6D, 0x2F, 0x61])).1 = none := by decide
  have hmem : ([0x2F, 0x6D, 0x2F], ⟨0, ⟨0, -1, [0x64]⟩, [0x2F, 0x6D, 0x2F], 0, [0x66]⟩) ∈
      mountedWithSlash.mounts := by decide
  rw [hnone]
  exact fun h => h _ hmem (by decide)

/-! ## Without zero bytes -/

theorem rendered_append {more : List Path} (hnil : names ≠ []) :
    rendered (names ++ more) = rendered names ++ more.flatMap (pathSeparator :: ·) := by
  rw [rendered_of_ne_nil hnil, rendered_of_ne_nil (List.append_ne_nil_of_left_ne_nil hnil _),
    List.flatMap_append]

/-- The names in front of a slash are rendered as the path has them. -/
theorem rendered_front {back : Path} (hplain : ∀ name ∈ names, Plain name)
    (htarget : target ≠ []) (hpath : rendered names = target ++ pathSeparator :: back) :
    target = rendered (components target) ∧ components target <+: names := by
  have hnil : names ≠ [] := by
    rintro rfl
    have hlen := congrArg List.length hpath
    rw [List.length_append, List.length_cons] at hlen
    have hpos := List.length_pos_of_ne_nil htarget
    have hone : (rendered []).length = 1 := rfl
    omega
  have hsplit := splitOn_rendered hnil hplain
  rw [hpath, List.splitOn_append_cons_self] at hsplit
  obtain ⟨_, front, hfront⟩ := List.exists_cons_of_ne_nil (List.splitOn_ne_nil pathSeparator target)
  rw [hfront, List.cons_append] at hsplit
  obtain ⟨rfl, hnames⟩ := List.cons.inj hsplit
  have hjoin : [pathSeparator].intercalate (target.splitOn pathSeparator) = target :=
    List.intercalate_splitOn _
  have hfrontPlain : ∀ name ∈ front, Plain name := fun name hin =>
    hplain name (hnames ▸ List.mem_append_left _ hin)
  have hne : front ≠ [] := by
    rintro rfl
    refine htarget ?_
    rw [← hjoin, hfront]
    rfl
  have htext : target = rendered front := by
    rw [← hjoin, hfront, ← splitOn_rendered hne hfrontPlain, List.intercalate_splitOn]
  have hcomponents : components target = front := by
    rw [htext]
    exact components_rendered hfrontPlain
  rw [hcomponents]
  exact ⟨htext, _, hnames⟩

/-- A target covers the path if it is the rendered beginning of its names. -/
theorem covers_rendered (hplain : ∀ name ∈ names, Plain name) (hzero : 0 ∉ rendered names)
    (hlong : 1 < target.length) :
    Covers target (rendered names) ↔
      target = rendered (components target) ∧ components target <+: names := by
  have htarget : target ≠ [] := List.ne_nil_of_length_pos (by omega)
  constructor
  · intro ⟨⟨back, hback⟩, hbehind⟩
    cases back with
    | nil =>
        rw [List.append_nil] at hback
        rw [hback, components_rendered hplain]
        exact ⟨rfl, List.prefix_rfl⟩
    | cons c back =>
        have hc := hbehind hlong
        rw [← hback, List.getD_eq_getElem?_getD, List.getElem?_append_right (Nat.le_refl _),
          Nat.sub_self] at hc
        rcases hc with rfl | rfl
        · exact rendered_front hplain htarget hback.symm
        · refine absurd ?_ hzero
          rw [← hback]
          exact List.mem_append_right _ List.mem_cons_self
  · intro ⟨htext, more, hmore⟩
    have hnil : components target ≠ [] := by
      intro hnil
      rw [htext, hnil] at hlong
      exact absurd hlong (by decide)
    have hpath : rendered names = target ++ more.flatMap (pathSeparator :: ·) := by
      rw [← hmore, rendered_append hnil, ← htext]
    refine ⟨⟨_, hpath.symm⟩, fun _ => ?_⟩
    rw [hpath, List.getD_eq_getElem?_getD, List.getElem?_append_right (Nat.le_refl _),
      Nat.sub_self]
    cases more with
    | nil => exact .inr rfl
    | cons name more => exact .inl rfl

/-- Every target is more than a slash. -/
def Long (fs : Filesystem) : Prop := ∀ mntp ∈ fs.mounts, 1 < mntp.1.length

theorem long_step {mgr : DiskManager} {c : Call} (hinv : Inv fs) (h : Long fs) :
    Long (fs.step mgr c) :=
  forall_mounts_step hinv (fun _ _ hlong => hlong)
    (fun haccepted _ _ _ => Nat.lt_of_not_le (not_or.1 haccepted.rooted).1) h

theorem long_run {mgr : DiskManager} {cs : List Call} (hinv : Inv fs) (h : Long fs) :
    Long (cs.foldl (step mgr) fs) := by
  induction cs generalizing fs with
  | nil => exact h
  | cons c cs ih => exact ih (inv_step hinv) (long_step hinv h)

/-- Without zero bytes in the path the targets fit if one of the innermost is rendered from
its names. -/
theorem fits_iff_rendered {mgr : DiskManager} {cs : List Call}
    (hzero : 0 ∉ absolutePath cwd path) :
    Fits (cs.foldl (step mgr) (initial fstypes)).mounts (absolutePath cwd path) ↔
      ∀ mntp ∈ (cs.foldl (step mgr) (initial fstypes)).mounts,
        components mntp.1 <+: components (absolutePath cwd path) →
        ∃ other ∈ (cs.foldl (step mgr) (initial fstypes)).mounts,
          other.1 = rendered (components other.1) ∧
          components other.1 <+: components (absolutePath cwd path) ∧
          (components mntp.1).length ≤ (components other.1).length := by
  have hlong : Long (cs.foldl (step mgr) (initial fstypes)) :=
    long_run inv_initial fun _ h => absurd h List.not_mem_nil
  have hplain : ∀ name ∈ resolve (origin cwd path) (components path), Plain name :=
    plain_resolve_components plain_origin
  have hcomponents := @components_absolutePath cwd path
  have hcovers : ∀ mntp ∈ (cs.foldl (step mgr) (initial fstypes)).mounts,
      (Covers mntp.1 (absolutePath cwd path) ↔ mntp.1 = rendered (components mntp.1) ∧
        components mntp.1 <+: components (absolutePath cwd path)) := by
    intro mntp hmem
    rw [hcomponents]
    rw [absolutePath_eq] at hzero ⊢
    exact covers_rendered hplain hzero (hlong mntp hmem)
  constructor
  · intro h mntp hmem hnames
    obtain ⟨other, hother, hspelt, hle⟩ := h.deepest mntp hmem hnames
    exact ⟨other, hother, ((hcovers other hother).1 hspelt.1).1, hspelt.2, hle⟩
  · intro h
    refine ⟨fun mntp hmem hnames => ?_, fun mntp hmem hcov => ?_⟩
    · obtain ⟨other, hother, htext, hprefix, hle⟩ := h mntp hmem hnames
      exact ⟨other, hother, ⟨(hcovers other hother).2 ⟨htext, hprefix⟩, hprefix⟩, hle⟩
    · exact ⟨mntp, hmem, ⟨hcov, ((hcovers mntp hmem).1 hcov).2⟩, Nat.le_refl _⟩

end Filesystem

end MuditaOS.Vfs

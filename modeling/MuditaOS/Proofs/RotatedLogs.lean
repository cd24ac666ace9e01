import MuditaOS.Lib.Row
import MuditaOS.Proofs.RotatedNames

/-!
# Rotated logs

The file that is written to and the rotated ones are a row of slots. From the first free
one on down, each file is moved to a slot that the move before has left, so no move
overwrites a file, wherever the rotation stops. If there is no free slot, the last one is
cleared first; then a slot is free for good, however often the rotation is run again.
-/

namespace MuditaOS.Utils.Rotator

open MuditaOS.Lib

variable {α : Type*} {extension path : FilePath} {faults : Faults} {dir dir' : Directory α}
  {maxRotationFilesCount : UInt32} {n i c : Nat} {ret : Bool}

/-- What stands in a slot. -/
def slot (extension path : FilePath) (dir : Directory α) (i : Nat) : Option α :=
  dir.files (slotPath extension path i)

/-- Only files of the slots have changed, and none has been overwritten. -/
structure Untouched (extension path : FilePath) (n : Nat) (dir dir' : Directory α) : Prop where
  others : ∀ p, (∀ i < n, p ≠ slotPath extension path i) → dir'.files p = dir.files p
  overwritten : dir'.overwritten = dir.overwritten

theorem Untouched.refl : Untouched extension path n dir dir := ⟨fun _ _ => rfl, rfl⟩

theorem Untouched.trans {dir'' : Directory α} (h : Untouched extension path n dir dir')
    (h' : Untouched extension path n dir' dir'') : Untouched extension path n dir dir'' :=
  ⟨fun p hp => (h'.others p hp).trans (h.others p hp), h'.overwritten.trans h.overwritten⟩

def SlotsDistinct (extension path : FilePath) (n : Nat) : Prop :=
  ∀ i < n, ∀ j < n, slotPath extension path i = slotPath extension path j → i = j

theorem slotsDistinct (hext : extension ≠ []) :
    SlotsDistinct extension path maxRotationFilesCount.toNat := fun _ hi _ hj =>
  slotPath_inj hext (hi.trans maxRotationFilesCount.toNat_lt)
    (hj.trans maxRotationFilesCount.toNat_lt)

/-! ## Single steps -/

theorem remove_slot (hdistinct : SlotsDistinct extension path n) (hi : i < n)
    (h : dir.remove faults (slotPath extension path i) = some dir') :
    Untouched extension path n dir dir' ∧ slot extension path dir' i = none ∧
      ∀ j < n, j ≠ i → slot extension path dir' j = slot extension path dir j := by
  obtain ⟨hfiles, hoverwritten⟩ := Directory.remove_eq_some h
  refine ⟨⟨fun p hp => ?_, hoverwritten⟩, ?_, fun j hj hne => ?_⟩
  · rw [hfiles, if_neg (hp i hi)]
  · rw [slot, hfiles, if_pos rfl]
  · rw [slot, hfiles, if_neg fun heq => hne (hdistinct j hj i hi heq), slot]

/-- To move a file to the next slot, which is free, overwrites none. -/
theorem rename_slot (hdistinct : SlotsDistinct extension path n) (hi : i + 1 < n)
    (hfree : slot extension path dir (i + 1) = none)
    (h : dir.rename faults (slotPath extension path i) (slotPath extension path (i + 1)) =
      some dir') :
    Untouched extension path n dir dir' ∧ slot extension path dir' i = none ∧
      slot extension path dir' (i + 1) = slot extension path dir i ∧
      (∀ j < n, j ≠ i → j ≠ i + 1 →
        slot extension path dir' j = slot extension path dir j) ∧
      inRow n (slot extension path dir') = inRow n (slot extension path dir) := by
  obtain ⟨-, hfiles, hoverwritten⟩ := Directory.rename_eq_some h
  have hleft : slot extension path dir' i = none := by
    rw [slot, hfiles, if_neg fun heq => absurd (hdistinct i (by omega) (i + 1) hi heq) (by omega),
      if_pos rfl]
  have hmoved : slot extension path dir' (i + 1) = slot extension path dir i := by
    rw [slot, hfiles, if_pos rfl, slot]
  have hsame : ∀ j < n, j ≠ i → j ≠ i + 1 →
      slot extension path dir' j = slot extension path dir j := by
    intro j hj hi' hi''
    rw [slot, hfiles, if_neg fun heq => hi'' (hdistinct j hj (i + 1) hi heq),
      if_neg fun heq => hi' (hdistinct j hj i (by omega) heq), slot]
  refine ⟨⟨fun p hp => ?_, ?_⟩, hleft, hmoved, hsame, inRow_move hi hfree hleft hmoved hsame⟩
  · rw [hfiles, if_neg (hp (i + 1) hi), if_neg (hp i (by omega))]
  · rw [slot] at hfree
    rw [hoverwritten, hfree, Option.toList_none, ite_self, List.append_nil]

/-! ## The loop -/

/-- The rounds of the loop that start below a free slot, wherever they stop. -/
theorem rotateLoop_shift
    (hdistinct : SlotsDistinct extension path maxRotationFilesCount.toNat)
    (hi : i + 1 < maxRotationFilesCount.toNat)
    (hfree : slot extension path dir (i + 1) = none)
    (h : rotateLoop extension maxRotationFilesCount faults path i dir = (ret, dir')) :
    Untouched extension path maxRotationFilesCount.toNat dir dir' ∧
      slot extension path dir' 0 = slot extension path dir 0 ∧
      inRow maxRotationFilesCount.toNat (slot extension path dir') =
        inRow maxRotationFilesCount.toNat (slot extension path dir) ∧
      (ret = true → slot extension path dir' 1 = none) := by
  induction i generalizing dir with
  | zero =>
      obtain ⟨rfl, rfl⟩ := Prod.mk.inj h
      exact ⟨.refl, rfl, rfl, fun _ => hfree⟩
  | succ i ih =>
      rw [rotateLoop, if_neg (by omega)] at h
      rw [← slotPath_pos (Nat.succ_pos i), ← slotPath_pos (Nat.succ_pos (i + 1))] at h
      cases hrename : dir.rename faults (slotPath extension path (i + 1))
          (slotPath extension path (i + 1 + 1)) with
      | none =>
          rw [hrename] at h
          obtain ⟨rfl, rfl⟩ := Prod.mk.inj h
          exact ⟨.refl, rfl, rfl, fun hret => absurd hret Bool.false_ne_true⟩
      | some next =>
          rw [hrename] at h
          obtain ⟨huntouched, hleft, -, hsame, hrow⟩ := rename_slot hdistinct hi hfree hrename
          obtain ⟨huntouched', hfirst, hrow', hret⟩ := ih (by omega) hleft h
          exact ⟨huntouched.trans huntouched',
            hfirst.trans (hsame 0 (by omega) (by omega) (by omega)), hrow'.trans hrow, hret⟩

/-- The loop from the last slot of a full row. -/
theorem rotateLoop_full
    (hdistinct : SlotsDistinct extension path maxRotationFilesCount.toNat) (hi : 0 < i)
    (hlast : i + 1 = maxRotationFilesCount.toNat)
    (hfull : (slot extension path dir i).isSome)
    (h : rotateLoop extension maxRotationFilesCount faults path i dir = (ret, dir')) :
    Untouched extension path maxRotationFilesCount.toNat dir dir' ∧
      slot extension path dir' 0 = slot extension path dir 0 ∧
      (inRow maxRotationFilesCount.toNat (slot extension path dir') =
          inRow maxRotationFilesCount.toNat (slot extension path dir) ∨
        inRow maxRotationFilesCount.toNat (slot extension path dir') =
          (inRow maxRotationFilesCount.toNat (slot extension path dir)).dropLast) ∧
      (ret = true → slot extension path dir' 1 = none) := by
  obtain ⟨i, rfl⟩ := Nat.exists_eq_succ_of_ne_zero hi.ne'
  rw [Nat.succ_eq_add_one] at hlast hfull h
  rw [rotateLoop, if_pos (by omega), ← slotPath_pos (Nat.succ_pos i)] at h
  cases hremove : dir.remove faults (slotPath extension path (i + 1)) with
  | none =>
      rw [hremove] at h
      obtain ⟨rfl, rfl⟩ := Prod.mk.inj h
      exact ⟨.refl, rfl, .inl rfl, fun hret => absurd hret Bool.false_ne_true⟩
  | some next =>
      rw [hremove] at h
      obtain ⟨huntouched, hleft, hsame⟩ := remove_slot hdistinct (by omega) hremove
      obtain ⟨huntouched', hfirst, hrow, hret⟩ := rotateLoop_shift hdistinct (by omega) hleft h
      have hcleared := inRow_clear_last hfull hleft fun j hj => hsame j (by omega) (by omega)
      rw [hlast] at hcleared
      exact ⟨huntouched.trans huntouched', hfirst.trans (hsame 0 (by omega) (by omega)),
        .inr (hrow.trans hcleared), hret⟩

/-- The rotated files are counted up to the first free slot, or all. -/
theorem countLoop_spec {rounds count : Nat} (hi : 0 < i)
    (h : countLoop extension faults dir path rounds i count = some c) :
    ∃ k ≤ rounds, c = count + k ∧ (∀ j < k, (slot extension path dir (i + j)).isSome) ∧
      (k < rounds → slot extension path dir (i + k) = none) := by
  induction rounds generalizing i count with
  | zero =>
      exact ⟨0, le_rfl, (Option.some.inj h).symm, fun j hj => absurd hj (Nat.not_lt_zero j),
        fun hk => absurd hk (Nat.not_lt_zero 0)⟩
  | succ rounds ih =>
      rw [countLoop, ← slotPath_pos hi] at h
      split at h
      · cases h
      · next hexists =>
          obtain rfl := Option.some.inj h
          have hnone := Option.isSome_eq_false_iff.1 (Directory.exists_eq_some hexists)
          exact ⟨0, Nat.zero_le _, rfl, fun j hj => absurd hj (Nat.not_lt_zero j),
            fun _ => Option.isNone_iff_eq_none.1 hnone⟩
      · next hexists =>
          obtain ⟨k, hk, rfl, hall, hfree⟩ := ih (Nat.succ_pos i) h
          refine ⟨k + 1, Nat.succ_le_succ hk, by omega, fun j hj => ?_, fun hlt => ?_⟩
          · cases j with
            | zero => exact Directory.exists_eq_some hexists
            | succ j => exact Nat.succ_add_eq_add_succ i j ▸ hall j (by omega)
          · exact Nat.succ_add_eq_add_succ i k ▸ hfree (by omega)

/-! ## Whole rotations -/

/-- One file may have been dropped, and only from a full row: the last one. -/
def DroppedLast (n : Nat) (s s' : Nat → Option α) : Prop :=
  inRow n s' = inRow n s ∨ (∀ i < n, (s i).isSome) ∧ inRow n s' = (inRow n s).dropLast

/-- A row that has lost a file is not full, so it loses no other one. -/
theorem DroppedLast.trans {s s' s'' : Nat → Option α} (hn : 0 < n) (h : DroppedLast n s s')
    (h' : DroppedLast n s' s'') : DroppedLast n s s'' := by
  rcases h with hrow | ⟨hfull, hrow⟩
  · rcases h' with hrow' | ⟨hfull', hrow'⟩
    · exact .inl (hrow'.trans hrow)
    · have hlength := length_inRow_eq_iff.2 hfull'
      rw [hrow] at hlength hrow'
      exact .inr ⟨length_inRow_eq_iff.1 hlength, hrow'⟩
  · rcases h' with hrow' | ⟨hfull', -⟩
    · exact .inr ⟨hfull, hrow'.trans hrow⟩
    · have hlength := length_inRow_eq_iff.2 hfull'
      rw [hrow, List.length_dropLast, length_inRow_eq_iff.2 hfull] at hlength
      omega

/-- What the loop leaves of the row that was counted: the first slot for the current file. -/
theorem rotateLoop_counted (hdistinct : SlotsDistinct extension path maxRotationFilesCount.toNat)
    (hmax : 2 ≤ maxRotationFilesCount.toNat) (hcurrent : (slot extension path dir 0).isSome)
    (hcount : getRotatedFilesCount extension maxRotationFilesCount faults dir path = some c)
    (h : rotateLoop extension maxRotationFilesCount faults path c dir = (ret, dir')) :
    Untouched extension path maxRotationFilesCount.toNat dir dir' ∧
      slot extension path dir' 0 = slot extension path dir 0 ∧
      DroppedLast maxRotationFilesCount.toNat (slot extension path dir)
        (slot extension path dir') ∧
      (ret = true → slot extension path dir' 1 = none) := by
  obtain ⟨k, hk, hrotated, hall, hfree⟩ := countLoop_spec Nat.one_pos hcount
  rw [Nat.zero_add] at hrotated
  subst hrotated
  by_cases hlast : c + 1 = maxRotationFilesCount.toNat
  · have hfull : ∀ i < maxRotationFilesCount.toNat, (slot extension path dir i).isSome := by
      intro i hi
      cases i with
      | zero => exact hcurrent
      | succ i => exact Nat.add_comm 1 i ▸ hall i (by omega)
    obtain ⟨huntouched, hfirst, hrow, hret⟩ := rotateLoop_full hdistinct (by omega) hlast
      (hfull c (by omega)) h
    exact ⟨huntouched, hfirst, hrow.imp_right fun hrow => ⟨hfull, hrow⟩, hret⟩
  · obtain ⟨huntouched, hfirst, hrow, hret⟩ := rotateLoop_shift hdistinct (by omega)
      (Nat.add_comm 1 c ▸ hfree (by omega)) h
    exact ⟨huntouched, hfirst, .inl hrow, hret⟩

theorem rotateFile_step (hdistinct : SlotsDistinct extension path maxRotationFilesCount.toNat)
    (hmax : 2 ≤ maxRotationFilesCount.toNat)
    (h : rotateFile extension maxRotationFilesCount faults path dir = (ret, dir')) :
    Untouched extension path maxRotationFilesCount.toNat dir dir' ∧
      DroppedLast maxRotationFilesCount.toNat (slot extension path dir)
        (slot extension path dir') ∧
      (ret = true → (slot extension path dir 0).isSome →
        slot extension path dir' 1 = slot extension path dir 0 ∧
          slot extension path dir' 0 = none) := by
  rw [rotateFile] at h
  split at h
  · obtain ⟨rfl, rfl⟩ := Prod.mk.inj h
    exact ⟨.refl, .inl rfl, fun hret => absurd hret Bool.false_ne_true⟩
  · next hexists =>
      obtain ⟨rfl, rfl⟩ := Prod.mk.inj h
      have hnone : (slot extension path dir 0).isSome = false := Directory.exists_eq_some hexists
      exact ⟨.refl, .inl rfl, fun _ hsome => absurd (hnone ▸ hsome) Bool.false_ne_true⟩
  · next hexists =>
      have hcurrent : (slot extension path dir 0).isSome := Directory.exists_eq_some hexists
      split at h
      · obtain ⟨rfl, rfl⟩ := Prod.mk.inj h
        exact ⟨.refl, .inl rfl, fun hret => absurd hret Bool.false_ne_true⟩
      · next rotatedFiles hcount =>
          split at h
          · next next hloop =>
              obtain ⟨rfl, rfl⟩ := Prod.mk.inj h
              obtain ⟨huntouched, -, hdropped, -⟩ :=
                rotateLoop_counted hdistinct hmax hcurrent hcount hloop
              exact ⟨huntouched, hdropped, fun hret => absurd hret Bool.false_ne_true⟩
          · next next hloop =>
              obtain ⟨huntouched, hfirst, hdropped, hslot⟩ :=
                rotateLoop_counted hdistinct hmax hcurrent hcount hloop
              split at h
              · obtain ⟨rfl, rfl⟩ := Prod.mk.inj h
                exact ⟨huntouched, hdropped, fun hret => absurd hret Bool.false_ne_true⟩
              · next last hrename =>
                  obtain ⟨rfl, rfl⟩ := Prod.mk.inj h
                  rw [← slotPath_pos Nat.one_pos] at hrename
                  obtain ⟨huntouched', hleft, hmoved, -, hrow⟩ :=
                    rename_slot (i := 0) hdistinct (by omega) (hslot rfl) hrename
                  exact ⟨huntouched.trans huntouched', hdropped.trans (by omega) (.inl hrow),
                    fun _ _ => ⟨hmoved.trans hfirst, hleft⟩⟩

variable (extension path maxRotationFilesCount) in
/-- The directory after a row of attempts, each with its own faults. -/
def attempts (runs : List Faults) (dir : Directory α) : Directory α :=
  runs.foldl (fun dir faults =>
    (rotateFile extension maxRotationFilesCount faults path dir).2) dir

theorem attempts_step (hdistinct : SlotsDistinct extension path maxRotationFilesCount.toNat)
    (hmax : 2 ≤ maxRotationFilesCount.toNat) (runs : List Faults) (dir : Directory α) :
    Untouched extension path maxRotationFilesCount.toNat dir
        (attempts extension path maxRotationFilesCount runs dir) ∧
      DroppedLast maxRotationFilesCount.toNat (slot extension path dir)
        (slot extension path (attempts extension path maxRotationFilesCount runs dir)) := by
  induction runs generalizing dir with
  | nil => exact ⟨.refl, .inl rfl⟩
  | cons faults runs ih =>
      obtain ⟨huntouched, hdropped, -⟩ := rotateFile_step hdistinct hmax
        (Eq.refl (rotateFile extension maxRotationFilesCount faults path dir))
      obtain ⟨huntouched', hdropped'⟩ :=
        ih (rotateFile extension maxRotationFilesCount faults path dir).2
      exact ⟨huntouched.trans huntouched', hdropped.trans (by omega) hdropped'⟩

/-- However often the rotation is run, and wherever it fails, no file is overwritten, other
files stay as they are, and what stands in the row of slots is the same in the same order,
up to the last file of a full row. A run that reports success has moved the current file to
the first slot. -/
theorem rotated_logs_kept (hext : extension ≠ []) (hmax : 2 ≤ maxRotationFilesCount)
    (runs : List Faults) (faults : Faults) (dir : Directory α) :
    Untouched extension path maxRotationFilesCount.toNat dir
        (attempts extension path maxRotationFilesCount runs dir) ∧
      DroppedLast maxRotationFilesCount.toNat (slot extension path dir)
        (slot extension path (attempts extension path maxRotationFilesCount runs dir)) ∧
      ∀ dir' content,
        rotateFile extension maxRotationFilesCount faults path
            (attempts extension path maxRotationFilesCount runs dir) = (true, dir') →
          (attempts extension path maxRotationFilesCount runs dir).files path = some content →
            dir'.files (getRotatedFilePath extension path 1) = some content ∧
              dir'.files path = none := by
  have hdistinct := @slotsDistinct extension path maxRotationFilesCount hext
  have hmax' : 2 ≤ maxRotationFilesCount.toNat := UInt32.le_iff_toNat_le.1 hmax
  obtain ⟨huntouched, hdropped⟩ := attempts_step hdistinct hmax' runs dir
  refine ⟨huntouched, hdropped, fun dir' content h hcontent => ?_⟩
  obtain ⟨-, -, hmoved⟩ := rotateFile_step hdistinct hmax' h
  obtain ⟨hfirst, hleft⟩ := hmoved rfl (Option.isSome_of_eq_some hcontent)
  exact ⟨hfirst.trans hcontent, hleft⟩

/-- `a.l` becomes `a.l.1` at the second attempt, the first one of which fails. -/
theorem rotated_logs_kept_retry :
    let extension : FilePath := [0x2E, 0x6C]
    let path : FilePath := [0x61, 0x2E, 0x6C]
    let dir : Directory Nat := ⟨fun p => if p = path then some 7 else none, []⟩
    let failing : Faults := ⟨fun _ => false, fun _ => false, fun _ _ => true⟩
    let retry := rotateFile extension 3 Faults.none path (attempts extension path 3 [failing] dir)
    retry.1 = true ∧ retry.2.files [0x61, 0x2E, 0x6C, 0x2E, 0x31] = some 7 ∧
      retry.2.files path = none := by
  intro extension path dir failing retry
  have hret : retry.1 = true := by decide
  have hcontent : (attempts extension path 3 [failing] dir).files path = some 7 := by decide
  have hfirst : getRotatedFilePath extension path 1 = [0x61, 0x2E, 0x6C, 0x2E, 0x31] := by decide
  have hkept := @rotated_logs_kept Nat extension path 3 (List.cons_ne_nil _ _) (by decide)
    [failing] Faults.none dir
  obtain ⟨hmoved, hleft⟩ := hkept.2.2 retry.2 7 (Prod.ext hret rfl) hcontent
  rw [hfirst] at hmoved
  exact ⟨hret, hmoved, hleft⟩

end MuditaOS.Utils.Rotator

import MuditaOS.Lib.Run
import MuditaOS.Proofs.HandleTable
import MuditaOS.Vfs.Descriptors

/-!
# Descriptors never alias

The steps of a close that come after its look-up do not ask again whether the
descriptor is still what it was. So the table stays sound, and with it no two open
files share a descriptor, exactly as long as every removal finds the file that
the close had looked up: otherwise a second close of the same descriptor came in
between, and the removal takes a free slot or another task's file.
-/

namespace MuditaOS.Vfs.Descriptors

open MuditaOS.Lib

variable {File Task : Type*} [DecidableEq File] [DecidableEq Task]
  {s : Descriptors File Task} {e : Event File Task} {es : List (Event File Task)}
  {task : Task} {fd : Int} {file : File}

/-- Open files have different descriptors, and the unused slots are free and listed
once. -/
structure NoAlias (s : Descriptors File Task) : Prop where
  distinct : (s.held.map Prod.snd).Nodup
  once : s.fds.unused.Nodup
  free : ∀ i ∈ s.fds.unused, s.fds.data[i]? = some none

/-- A close that returns zero removes the file it had looked up and no other. -/
def RemovesOwn (s : Descriptors File Task) (e : Event File Task) : Prop :=
  ∀ task fd file, e = .remove task → s.tasks task = .closed fd file →
    s.closeReturns task = some 0 →
    findFilehandle s.fds fd = some file ∧
      ∀ other, findFilehandle (s.step e).fds other =
        if other = fd then none else findFilehandle s.fds other

def Good (s : Descriptors File Task) (e : Event File Task) : Prop :=
  NoAlias (s.step e) ∧ RemovesOwn s e

/-- No other close has removed the descriptor since this one looked it up. -/
def Rule (s : Descriptors File Task) : Event File Task → Prop
  | .remove task => ∀ fd file, s.tasks task = .closed fd file →
      findFilehandle s.fds fd = some file
  | _ => True

/-- The descriptor that a task is closing. -/
def descriptor : Closing File → Option Int
  | .idle => none
  | .found fd _ => some fd
  | .closed fd _ => some fd

structure Inv (s : Descriptors File Task) : Prop where
  sound : s.fds.Sound
  distinct : (s.held.map Prod.snd).Nodup
  held_iff : ∀ {file fd}, (file, fd) ∈ s.held ↔ findFilehandle s.fds fd = some file
  inside : ∀ {task fd}, descriptor (s.tasks task) = some fd →
    firstFileDescriptor ≤ fd ∧ slotOf fd < s.fds.data.length

omit [DecidableEq File] [DecidableEq Task] in
theorem Inv.noAlias (hinv : Inv s) : NoAlias s :=
  ⟨hinv.distinct, hinv.sound.nodup, fun _ => hinv.sound.mem_iff.1⟩

omit [DecidableEq File] [DecidableEq Task] in
theorem inv_initial : Inv (initial : Descriptors File Task) := by
  refine ⟨HandleMapper.sound_empty, List.nodup_nil, fun {file fd} => ?_,
    fun h => absurd h.symm (Option.some_ne_none _)⟩
  refine iff_of_false List.not_mem_nil fun h => ?_
  exact absurd (slotOf_lt h).2 (Nat.not_lt_zero _)

/-! ## The steps -/

theorem inv_add (hinv : Inv s) : Inv (s.step (.add file)) := by
  obtain ⟨hsound, hdistinct, hheld, hinside⟩ := hinv
  have hnew := fun fd => @findFilehandle_addFilehandle File s.fds file fd hsound
  refine ⟨hsound.insert, List.nodup_cons.2 ⟨fun hin => ?_, hdistinct⟩, fun {f fd} => ?_,
    fun {t fd} h => ?_⟩
  · obtain ⟨⟨f, fd⟩, hmem, rfl⟩ := List.mem_map.1 hin
    exact absurd ((hnew 0).1.symm.trans (hheld.1 hmem)) (by simp)
  · change (f, fd) ∈ (file, (addFilehandle s.fds file).1) :: s.held ↔
      findFilehandle (addFilehandle s.fds file).2 fd = some f
    rw [(hnew fd).2, List.mem_cons, Prod.mk.injEq, hheld]
    split
    · next heq =>
        rw [Option.some.injEq, eq_comm, heq, (hnew 0).1]
        simp
    · next hne => rw [or_iff_right fun h => hne h.2]
  · obtain ⟨hfirst, hlt⟩ := hinside h
    exact ⟨hfirst, Nat.lt_of_lt_of_le hlt HandleMapper.length_insert⟩

omit [DecidableEq File] in
/-- Moving a task on to a descriptor of the table, or to none, changes nothing
else. -/
theorem inv_setTask {closing : Closing File} (hinv : Inv s)
    (hin : ∀ {fd}, descriptor closing = some fd →
      firstFileDescriptor ≤ fd ∧ slotOf fd < s.fds.data.length) :
    Inv (s.setTask task closing) := by
  refine ⟨hinv.sound, hinv.distinct, hinv.held_iff, fun {t fd} h => ?_⟩
  change descriptor (Function.update s.tasks task closing t) = some fd at h
  rw [Function.update_apply] at h
  split at h
  · exact hin h
  · exact hinv.inside h

theorem inv_find (hinv : Inv s) : Inv (s.step (.find task fd)) := by
  rw [step]
  split
  · next file _ hfind =>
      refine inv_setTask hinv fun h => ?_
      rw [← Option.some.inj h]
      exact slotOf_lt hfind
  · exact hinv

theorem inv_driverClose {err : Int} (hinv : Inv s) : Inv (s.step (.driverClose task err)) := by
  rw [step]
  split
  · next fd file htask =>
      split
      · refine inv_setTask hinv fun h => @Inv.inside File Task s hinv task _ ?_
        rw [htask]
        exact h
      · exact inv_setTask hinv fun h => absurd h.symm (Option.some_ne_none _)
  · exact hinv

theorem step_remove (htask : s.tasks task = .closed fd file) :
    s.step (.remove task) =
      { s.setTask task .idle with
        fds := (removeFilehandle s.fds fd).2
        held := if (findFilehandle s.fds fd).isSome then s.held.erase (file, fd)
          else s.held } := by
  rw [step, htask, ← removeFilehandle_fst]

theorem inv_remove (hinv : Inv s) (hrule : Rule s (.remove task)) :
    Inv (s.step (.remove task)) := by
  by_cases hclosed : ∃ fd file, s.tasks task = .closed fd file
  · obtain ⟨fd, file, htask⟩ := hclosed
    have hfind := hrule fd file htask
    obtain ⟨hfirst, hslot⟩ := slotOf_lt hfind
    have hget : (s.fds.get (slotOf fd)).isSome := by
      rw [findFilehandle_eq, if_neg (by omega)] at hfind
      rw [hfind]
      rfl
    have hnodup : s.held.Nodup := .of_map _ hinv.distinct
    rw [step_remove htask, hfind]
    refine ⟨?_, ?_, fun {f fd'} => ?_, fun {t fd'} h => ?_⟩
    · rw [removeFilehandle_snd hfirst hslot]
      exact (hinv.sound.remove_iff hslot).2 hget
    · exact (List.erase_sublist.map _).nodup hinv.distinct
    · change (f, fd') ∈ s.held.erase (file, fd) ↔
        findFilehandle (removeFilehandle s.fds fd).2 fd' = some f
      rw [findFilehandle_removeFilehandle hfirst hslot, hnodup.mem_erase_iff, hinv.held_iff]
      split
      · next heq =>
          rw [heq, hfind, Option.some.injEq]
          refine iff_of_false (fun ⟨hne, hf⟩ => hne ?_) (by simp)
          rw [hf]
      · next hne =>
          exact and_iff_right fun h => hne (Prod.mk.inj h).2
    · obtain ⟨hfirst', hlt⟩ : firstFileDescriptor ≤ fd' ∧ slotOf fd' < s.fds.data.length := by
        change descriptor (Function.update s.tasks task .idle t) = some fd' at h
        rw [Function.update_apply] at h
        split at h
        · exact absurd h.symm (Option.some_ne_none _)
        · exact hinv.inside h
      refine ⟨hfirst', ?_⟩
      change slotOf fd' < (removeFilehandle s.fds fd).2.data.length
      rw [removeFilehandle_snd hfirst hslot]
      exact Nat.lt_of_lt_of_eq hlt List.length_set.symm
  · have hstep : s.step (.remove task) = s := by
      rw [step]
      split
      · next fd file htask => exact absurd ⟨fd, file, htask⟩ hclosed
      · rfl
    rw [hstep]
    exact hinv

theorem inv_step (hinv : Inv s) (hrule : Rule s e) : Inv (s.step e) := by
  cases e with
  | add file => exact inv_add hinv
  | find task fd => exact inv_find hinv
  | driverClose task err => exact inv_driverClose hinv
  | remove task => exact inv_remove hinv hrule

/-! ## Good steps -/

theorem good_of_rule (hinv : Inv s) (hrule : Rule s e) : Good s e := by
  refine ⟨(inv_step hinv hrule).noAlias, ?_⟩
  rintro task fd file rfl htask -
  have hfind := hrule fd file htask
  refine ⟨hfind, fun other => ?_⟩
  obtain ⟨hfirst, hslot⟩ := slotOf_lt hfind
  rw [step_remove htask]
  exact findFilehandle_removeFilehandle hfirst hslot

/-- A removal that finds its slot free lists it a second time, and one that finds
another file there removes that one. -/
theorem rule_of_good (hinv : Inv s) (hgood : Good s e) : Rule s e := by
  cases e with
  | add file => exact trivial
  | find task fd => exact trivial
  | driverClose task err => exact trivial
  | remove task =>
      intro fd file htask
      obtain ⟨hno, hown⟩ := hgood
      cases hfind : findFilehandle s.fds fd with
      | some other =>
          rw [← hfind]
          refine (hown task fd file rfl htask ?_).1
          rw [closeReturns, htask]
          change some (if (removeFilehandle s.fds fd).1.isSome then (0 : Int) else -EBADF) = some 0
          rw [removeFilehandle_fst, hfind]
          rfl
      | none =>
          obtain ⟨hfirst, hslot⟩ := hinv.inside (congrArg descriptor htask)
          have honce := hno.once
          rw [step_remove htask] at honce
          change (removeFilehandle s.fds fd).2.unused.Nodup at honce
          rw [removeFilehandle_snd hfirst hslot] at honce
          have hfree : s.fds.data[slotOf fd]? = some none := by
            rw [findFilehandle_eq, if_neg (by omega), HandleMapper.get,
              List.getElem?_eq_getElem hslot] at hfind
            rw [List.getElem?_eq_getElem hslot]
            exact congrArg some hfind
          exact absurd (hinv.sound.mem_iff.2 hfree) (List.nodup_cons.1 honce).1

/-- Descriptors never alias in a run exactly when every removal finds what its close
had looked up. -/
theorem noAlias_iff :
    EveryStep Good step (initial : Descriptors File Task) es ↔
      EveryStep Rule step initial es :=
  @everyStep_congr (Descriptors File Task) _ Inv Good Rule step
    (fun _ _ hinv => ⟨rule_of_good hinv, good_of_rule hinv⟩)
    (fun _ _ hinv hrule => inv_step hinv hrule) es initial inv_initial

/-- Two tasks close descriptor 3, and then two files are opened as 3. -/
theorem closed_twice : ¬ EveryStep Good step (initial : Descriptors Nat Bool)
    [.add 7, .find false 3, .find true 3, .driverClose false 0, .driverClose true 0,
      .remove false, .remove true, .add 8, .add 9] := by
  rintro ⟨-, -, -, -, -, -, -, -, ⟨hno, -⟩, -⟩
  exact absurd hno.distinct (by decide)

end MuditaOS.Vfs.Descriptors

import MuditaOS.Lib.Keyed
import MuditaOS.Vfs.Notifier

/-!
# Who is notified of a path

The backwards search of `for_path` visits the path and the directories above it, each
of them once, except for the root. So an event reaches every subscription on one of them
once, as far as its service is alive and not the one that caused the event. That a path
made absolute by the file system is one of those the search is meant for is shown first.
-/

namespace MuditaOS.Vfs

open MuditaOS.Lib MuditaOS.Utils

variable {path q : Path} {cwd : Path}

/-- A path with a name in it and no slash at its end. -/
def Named (path : Path) : Prop := path ≠ [] ∧ path.getLast? ≠ some pathSeparator

instance : Decidable (Named path) := inferInstanceAs (Decidable (_ ∧ _))

/-- The path itself, or a directory above it. -/
def OnWay (dir path : Path) : Prop :=
  dir = path ∨ dropSeparator dir ++ [pathSeparator] <+: path

instance : Decidable (OnWay q path) := inferInstanceAs (Decidable (_ ∨ _))

theorem Named.dropSeparator (h : Named path) : dropSeparator path = path := if_neg h.2

/-! ## Normalised paths -/

theorem not_mem_splitViewFrom {delim : UInt8} : ∀ {strv token ep : List UInt8},
    delim ∉ token → ep ∈ splitViewFrom delim token strv → delim ∉ ep := by
  intro strv
  induction strv with
  | nil =>
      intro token ep htoken hep
      rw [splitViewFrom] at hep
      split at hep
      · exact absurd hep List.not_mem_nil
      · rwa [List.mem_singleton.1 hep]
  | cons c cs ih =>
      intro token ep htoken hep
      rw [splitViewFrom] at hep
      split at hep
      · split at hep
        · exact ih List.not_mem_nil hep
        · rcases List.mem_cons.1 hep with rfl | hep
          · exact htoken
          · exact ih List.not_mem_nil hep
      · next hc =>
          refine ih (fun hin => ?_) hep
          rcases List.mem_append.1 hin with hin | hin
          · exact htoken hin
          · exact hc (List.mem_singleton.1 hin).symm

theorem mem_normalizeLoop {ep : Path} : ∀ {after before : List Path},
    ep ∈ normalizeLoop before after → ep ∈ before ∨ ep ∈ after := by
  intro after
  induction after with
  | nil => intro before h; exact .inl (List.mem_reverse.1 h)
  | cons c after ih =>
      intro before h
      rw [normalizeLoop] at h
      split at h
      · exact (ih h).imp_right (List.mem_cons_of_mem _)
      · split at h
        · exact (ih h).imp List.mem_of_mem_tail (List.mem_cons_of_mem _)
        · rcases ih h with hin | hin
          · rcases List.mem_cons.1 hin with rfl | hin
            · exact .inr List.mem_cons_self
            · exact .inl hin
          · exact .inr (List.mem_cons_of_mem _ hin)

/-- Names strung together with a slash in front of each do not end in one. -/
theorem getLast?_flatMap_slash : ∀ {paths : List Path},
    (∀ ep ∈ paths, ep ≠ [] ∧ pathSeparator ∉ ep) →
    (paths.flatMap fun ep => pathSeparator :: ep).getLast? ≠ some pathSeparator := by
  intro paths
  induction paths with
  | nil => simp
  | cons ep paths ih =>
      intro h hlast
      obtain ⟨hne, hsep⟩ := h ep List.mem_cons_self
      rw [List.flatMap_cons, List.getLast?_append] at hlast
      cases hrest : (paths.flatMap fun ep => pathSeparator :: ep).getLast? with
      | some c =>
          rw [hrest, Option.some_or] at hlast
          exact ih (fun ep hep => h ep (List.mem_cons_of_mem _ hep)) (hrest.trans hlast)
      | none =>
          obtain ⟨c, hc⟩ := Option.ne_none_iff_exists'.1 (mt List.getLast?_eq_none_iff.1 hne)
          rw [hrest, Option.none_or, List.getLast?_cons, hc] at hlast
          obtain rfl : c = pathSeparator := Option.some.inj hlast
          exact hsep (List.mem_of_getLast? hc)

theorem named_normalizePath (hroot : normalizePath path ≠ [pathSeparator]) :
    Named (normalizePath path) := by
  rw [normalizePath] at hroot ⊢
  split
  · next hnil => exact absurd (if_pos hnil) hroot
  · next hnil =>
      refine ⟨hnil, getLast?_flatMap_slash fun ep hep => ?_⟩
      obtain ⟨hmem, hne⟩ := List.mem_filter.1 hep
      refine ⟨of_decide_eq_true hne, ?_⟩
      rcases mem_normalizeLoop hmem with hin | hin
      · exact absurd hin List.not_mem_nil
      · exact not_mem_splitViewFrom List.not_mem_nil hin

theorem named_absolutePath (hroot : absolutePath cwd path ≠ [pathSeparator]) :
    Named (absolutePath cwd path) := by
  rw [absolutePath] at hroot ⊢
  split at hroot
  · next h => rw [if_pos h]; exact named_normalizePath hroot
  · next h => rw [if_neg h]; exact named_normalizePath hroot

namespace Notifier

/-! ## The paths that are visited -/

/-- What the search from `it - 1` to the left comes to. -/
theorem rfind_pred {it : Nat} (hit : it ≤ path.length) :
    rfind [pathSeparator] path (some (it - 1)) = rfindAux [pathSeparator] path (it - 1) := by
  rw [rfind, Option.getD_some, Nat.min_eq_left (by omega)]

/-- The path up to `it`, and up to each slash to the left. -/
theorem mem_forPathLoop : ∀ {fuel it : Nat}, it ≤ fuel → it ≤ path.length →
    (q ∈ forPathLoop path fuel it ↔ ∃ i, 0 < i ∧ i ≤ it ∧ q = path.take i ∧
      (i = it ∨ OccursAt [pathSeparator] path i)) := by
  intro fuel
  induction fuel with
  | zero =>
      intro it hfuel _
      refine iff_of_false List.not_mem_nil ?_
      rintro ⟨i, hpos, hi, -⟩
      omega
  | succ fuel ih =>
      intro it hfuel hit
      rw [forPathLoop]
      split
      · next hzero =>
          refine iff_of_false List.not_mem_nil ?_
          rintro ⟨i, hpos, hi, -⟩
          omega
      · next hpos =>
          rw [rfind_pred hit, List.mem_cons]
          cases hfind : rfindAux [pathSeparator] path (it - 1) with
          | none =>
              have hnone := rfindAux_eq_none.1 hfind
              constructor
              · rintro (rfl | h)
                · exact ⟨it, by omega, Nat.le_refl _, rfl, .inl rfl⟩
                · exact absurd h List.not_mem_nil
              · rintro ⟨i, -, hi, rfl, rfl | hocc⟩
                · exact .inl rfl
                · by_cases heq : i = it
                  · exact .inl (heq ▸ rfl)
                  · exact absurd hocc (hnone i (by omega))
          | some j =>
              obtain ⟨hj, hoccj, hmax⟩ := rfindAux_eq_some.1 hfind
              dsimp only
              rw [ih (by omega) (by omega)]
              constructor
              · rintro (rfl | ⟨i, hi0, hi, rfl, hor⟩)
                · exact ⟨it, by omega, Nat.le_refl _, rfl, .inl rfl⟩
                · refine ⟨i, hi0, by omega, rfl, .inr ?_⟩
                  rcases hor with rfl | hocc
                  · exact hoccj
                  · exact hocc
              · rintro ⟨i, hi0, hi, rfl, hor⟩
                by_cases heq : i = it
                · exact .inl (heq ▸ rfl)
                · have hocc := hor.resolve_left heq
                  have hle : i ≤ j := Nat.le_of_not_lt fun hlt => hmax i hlt (by omega) hocc
                  exact .inr ⟨i, hi0, hle, rfl, .inr hocc⟩

theorem nodup_forPathLoop : ∀ {fuel it : Nat}, it ≤ fuel → it ≤ path.length →
    (forPathLoop path fuel it).Nodup := by
  intro fuel
  induction fuel with
  | zero => intro it _ _; exact List.nodup_nil
  | succ fuel ih =>
      intro it hfuel hit
      rw [forPathLoop]
      split
      · exact List.nodup_nil
      · next hpos =>
          rw [rfind_pred hit]
          cases hfind : rfindAux [pathSeparator] path (it - 1) with
          | none => exact List.nodup_singleton _
          | some j =>
              have hj := (rfindAux_eq_some.1 hfind).1
              refine List.nodup_cons.2 ⟨fun hin => ?_, ih (by omega) (by omega)⟩
              obtain ⟨i, -, hi, heq, -⟩ := (mem_forPathLoop (by omega) (by omega)).1 hin
              have hlen := congrArg List.length heq
              rw [List.length_take, List.length_take] at hlen
              omega

theorem take_slash_prefix {i : Nat} :
    path.take i ++ [pathSeparator] <+: path ↔ OccursAt [pathSeparator] path i := by
  conv => lhs; rhs; rw [← List.take_append_drop i path]
  rw [List.prefix_append_right_inj, OccursAt]

/-- `for_path` visits the path and the directories above it, but not the root. -/
theorem mem_forPath (hpath : Named path) :
    q ∈ forPath path ↔ q ≠ [] ∧ (q = path ∨ q ++ [pathSeparator] <+: path) := by
  rw [forPath, if_neg hpath.2, mem_forPathLoop (Nat.le_refl _) (Nat.le_refl _)]
  constructor
  · rintro ⟨i, hpos, hi, rfl, hor⟩
    have hlen : (path.take i).length = i := List.length_take_of_le hi
    refine ⟨fun hnil => ?_, hor.imp (fun heq => ?_) take_slash_prefix.2⟩
    · rw [hnil] at hlen
      exact absurd hlen (by simp; omega)
    · rw [heq, List.take_length]
  · rintro ⟨hne, rfl | hbegins⟩
    · exact ⟨q.length, List.length_pos_of_ne_nil hne, Nat.le_refl _, List.take_length.symm,
        .inl rfl⟩
    · have hle := hbegins.length_le
      rw [List.length_append, List.length_singleton] at hle
      have htake : q = path.take q.length :=
        List.prefix_iff_eq_take.1 ((List.prefix_append q _).trans hbegins)
      refine ⟨q.length, List.length_pos_of_ne_nil hne, by omega, htake, .inr ?_⟩
      rw [htake] at hbegins
      exact take_slash_prefix.1 hbegins

theorem nodup_forPath (hpath : Named path) : (forPath path).Nodup := by
  rw [forPath, if_neg hpath.2]
  exact nodup_forPathLoop (Nat.le_refl _) (Nat.le_refl _)

theorem mem_forPath_iff_onWay (hq : Named q) (hpath : Named path) :
    q ∈ forPath path ↔ OnWay q path := by
  rw [mem_forPath hpath, OnWay, hq.dropSeparator, and_iff_right hq.1]

/-! ## What is sent -/

variable {n : Notifier} {caller : Caller} {mask : UInt32}

/-- A subscription to the event, of a service that is there and did not cause it. -/
def Hears (caller : Caller) (mask : UInt32) (watch : Path × ServiceItem) : Prop :=
  watch.2.subscribedEvents &&& mask ≠ 0 ∧ caller.alive watch.2.service = true ∧
    caller.handle watch.2.service ≠ caller.thread

instance {watch : Path × ServiceItem} : Decidable (Hears caller mask watch) :=
  inferInstanceAs (Decidable (_ ∧ _ ∧ _))

/-- What the subscriptions on a path or above it are sent. -/
def notices (watches : List (Path × ServiceItem)) (caller : Caller) (name : Path)
    (mask : UInt32) : List Inotify :=
  (watches.filter fun watch => OnWay watch.1 name ∧ Hears caller mask watch).map
    fun watch => ⟨watch.2.service, mask, name, []⟩

theorem flatMap_send {watches : List (Path × ServiceItem)} {name namePrv : Path} :
    (watches.flatMap fun i =>
      if i.2.subscribedEvents &&& mask ≠ 0 then
        if caller.alive i.2.service then sendNotification caller i.2.service mask name namePrv
        else []
      else []) =
    (watches.filter fun i => Hears caller mask i).map
      fun i => ⟨i.2.service, mask, name, namePrv⟩ := by
  induction watches with
  | nil => rfl
  | cons watch watches ih =>
      rw [List.flatMap_cons, ih, List.filter_cons]
      by_cases hmask : watch.2.subscribedEvents &&& mask ≠ 0
      · cases halive : caller.alive watch.2.service with
        | false => simp [Hears, halive]
        | true => by_cases hself : caller.handle watch.2.service = caller.thread <;>
            simp [Hears, halive, hmask, hself, sendNotification]
      · simp [Hears, hmask]

/-- Every subscription that hears of the path is sent one message, with that path. -/
theorem notify_perm (hpath : Named (absolutePath caller.cwd path))
    (hwatches : ∀ watch ∈ n.events, Named watch.1) :
    (n.notify caller path [] mask).Perm
      (notices n.events caller (absolutePath caller.cwd path) mask) := by
  have hone : n.notify caller path [] mask =
      ((forPath (absolutePath caller.cwd path)).flatMap fun q =>
        n.events.filter fun i => i.1 = q ∧ Hears caller mask i).map
      fun i => ⟨i.2.service, mask, absolutePath caller.cwd path, []⟩ := by
    rw [notify, List.map_flatMap]
    refine List.flatMap_congr fun q _ => ?_
    rw [flatMap_send, List.filter_filter]
    refine congrArg _ (List.filter_congr fun i _ => ?_)
    rw [Bool.decide_and, Bool.and_comm]
  have hvisited := @perm_flatMap_filter_key _ _ _ Prod.fst n.events (Hears caller mask) _ _
    (nodup_forPath hpath)
  rw [hone, notices]
  refine (hvisited.map _).trans (List.Perm.of_eq (congrArg _ (List.filter_congr fun i hi => ?_)))
  rw [decide_eq_decide, mem_forPath_iff_onWay (hwatches i hi) hpath]

end Notifier

end MuditaOS.Vfs

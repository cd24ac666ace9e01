import Mathlib.Data.List.Induction
import Mathlib.Data.List.Nodup
import MuditaOS.Lib.Run
import MuditaOS.Sys.CpuGovernor

/-!
# The governor and the live sentinels

What the governor is for is a registry of the sentinels that are there, with what each of them
asks for. The entries of the vector that are live are this registry at every moment: the loops
take out expired entries only, and find a live one by its name. Two answers look at the other
entries. The minimum is taken after they have been cleaned away, though that there is an entry
was checked before; and whether WFI is blocked is asked of all entries.
-/

namespace MuditaOS.Sys

open MuditaOS.Lib

/-! ## The registry -/

structure Registered where
  currentReason : String
  requestedFrequency : CpuFrequencyMHz
  wfiBlocked : Bool
  deriving DecidableEq, Repr

/-- The sentinels that are there, each under its name. -/
structure Registry where
  entries : List (Name × Registered)
  nodup : (entries.map Prod.fst).Nodup

namespace Registry

def empty : Registry := ⟨[], List.nodup_nil⟩

def register (r : Registry) (s : CpuSentinel) : Registry :=
  if h : s.name ∈ r.entries.map Prod.fst then r
  else
    { entries := r.entries ++ [(s.name, ⟨s.currentReason, .Level_0, false⟩)]
      nodup := by
        rw [List.map_append, List.nodup_append]
        refine ⟨r.nodup, by simp, ?_⟩
        rintro a ha b hb rfl
        have hname : a = s.name := by simpa using hb
        exact h (hname ▸ ha) }

def remove (r : Registry) (name : Name) : Registry where
  entries := r.entries.filter fun entry => entry.1 ≠ name
  nodup := (List.filter_sublist.map Prod.fst).nodup r.nodup

def change (r : Registry) (name : Name) (f : Registered → Registered) : Registry where
  entries := r.entries.map fun entry => if entry.1 = name then (entry.1, f entry.2) else entry
  nodup := by
    rw [List.map_map]
    convert r.nodup using 2
    funext entry
    simp only [Function.comp_apply]
    split <;> rfl

def step (r : Registry) : GovernorEvent → Registry
  | .registerNewSentinel newSentinel => newSentinel.elim r r.register
  | .removeSentinel name => if name = [] then r else r.remove name
  | .setCpuFrequencyRequest name request =>
      r.change name fun s => { s with requestedFrequency := request }
  | .resetCpuFrequencyRequest name =>
      r.change name fun s => { s with requestedFrequency := .Level_0 }
  | .blockWfiMode name request => r.change name fun s => { s with wfiBlocked := request }
  | .ownerDestroyed name => r.remove name
  | .ownerHolds name reason => r.change name fun s => { s with currentReason := reason }
  | .getMinimumFrequencyRequested | .isWfiBlocked | .inform => r

def run (events : List GovernorEvent) : Registry := events.foldl step empty

end Registry

namespace CpuGovernor

variable {sentinels before after : List GovernorSentinel} {g : GovernorSentinel}
  {foo : GovernorSentinel → Bool} {name : Name} {events : List GovernorEvent}

/-! ## The live entries -/

def registered (g : GovernorSentinel) : Option (Name × Registered) :=
  g.sentinelPtr.map fun s => (s.name, ⟨s.currentReason, g.requestedFrequency, g.wfiBlocked⟩)

def live (sentinels : List GovernorSentinel) : List (Name × Registered) :=
  sentinels.filterMap registered

theorem live_append : live (before ++ after) = live before ++ live after := List.filterMap_append

theorem live_cons_none (h : registered g = none) : live (g :: after) = live after :=
  List.filterMap_cons_none h

theorem live_cons_some {entry : Name × Registered} (h : registered g = some entry) :
    live (g :: after) = entry :: live after := List.filterMap_cons_some h

theorem registered_of_expired (h : g.sentinelPtr = none) : registered g = none := by
  rw [registered, h, Option.map_none]

/-- One round of the loop, at an entry with others in front of it and behind. -/
theorem forEachGovernedSentinel_concat :
    forEachGovernedSentinel foo (before ++ [g]).length (before ++ [g] ++ after) =
      if g.sentinelPtr.isNone then forEachGovernedSentinel foo before.length (before ++ after)
      else if foo g then (before ++ g :: after, true)
      else forEachGovernedSentinel foo before.length (before ++ g :: after) := by
  have herase : (before ++ g :: after).eraseIdx before.length = before ++ after := by
    rw [List.eraseIdx_append_of_length_le (Nat.le_refl _)]
    simp
  rw [List.length_append, List.length_singleton, forEachGovernedSentinel, List.append_assoc,
    List.singleton_append, List.getElem?_append_right (Nat.le_refl _), Nat.sub_self,
    List.getElem?_cons_zero]
  dsimp only
  rw [herase]

/-- The loop leaves the live entries, and finds one for which the callback says so. -/
theorem forEachGovernedSentinel_spec :
    live (forEachGovernedSentinel foo before.length (before ++ after)).1 = live (before ++ after) ∧
      ((forEachGovernedSentinel foo before.length (before ++ after)).2 = true ↔
        ∃ g ∈ before, g.sentinelPtr.isSome ∧ foo g = true) := by
  induction before using List.reverseRecOn generalizing after with
  | nil => simp [forEachGovernedSentinel]
  | append_singleton before g ih =>
      rw [forEachGovernedSentinel_concat]
      cases hptr : g.sentinelPtr with
      | none =>
          have hlive : live (before ++ [g] ++ after) = live (before ++ after) := by
            rw [List.append_assoc, List.singleton_append, live_append, live_cons_none
              (registered_of_expired hptr),
              ← live_append]
          rw [if_pos Option.isNone_none, hlive]
          refine ⟨ih.1, ih.2.trans ?_⟩
          simp [hptr]
      | some s =>
          rw [if_neg (by simp), List.append_assoc, List.singleton_append]
          split
          case isTrue hfoo =>
              refine ⟨rfl, ?_⟩
              simp only [true_iff]
              exact ⟨g, by simp, by simp [hptr], hfoo⟩
          case isFalse hfoo =>
              refine ⟨ih.1, ih.2.trans ?_⟩
              simp [hfoo]

/-- The loop over all entries. -/
theorem forEachGovernedSentinel_all :
    live (forEachGovernedSentinel foo sentinels.length sentinels).1 = live sentinels ∧
      ((forEachGovernedSentinel foo sentinels.length sentinels).2 = true ↔
        ∃ g ∈ sentinels, g.sentinelPtr.isSome ∧ foo g = true) := by
  have h := @forEachGovernedSentinel_spec sentinels [] foo
  rw [List.append_nil] at h
  exact h

theorem forEachGovernedSentinel_clean :
    forEachGovernedSentinel (fun _ => false) before.length (before ++ after)
      = (before.filter (fun g => g.sentinelPtr.isSome) ++ after, false) := by
  induction before using List.reverseRecOn generalizing after with
  | nil => rfl
  | append_singleton before g ih =>
      rw [forEachGovernedSentinel_concat, List.filter_append]
      cases hptr : g.sentinelPtr with
      | none =>
          rw [if_pos Option.isNone_none, ih]
          simp [hptr]
      | some s =>
          rw [if_neg (by simp), if_neg (by simp), ih]
          simp [hptr]

/-- `clean` removes the expired entries and no others. -/
theorem clean_eq : clean sentinels = sentinels.filter fun g => g.sentinelPtr.isSome := by
  have h := @forEachGovernedSentinel_clean sentinels []
  rw [List.append_nil] at h
  rw [clean, h, List.append_nil]

theorem live_forEachSentinel {foo : CpuSentinel → Bool} :
    live (forEachSentinel foo sentinels).1 = live sentinels :=
  forEachGovernedSentinel_all.1

theorem isNamed_iff : isNamed name g = true ↔ ∃ r, registered g = some (name, r) := by
  cases hptr : g.sentinelPtr with
  | none => simp [isNamed, registered, hptr]
  | some s => simp [isNamed, registered, hptr]

theorem mem_names : name ∈ (live sentinels).map Prod.fst ↔ ∃ g ∈ sentinels, isNamed name g := by
  rw [List.mem_map]
  constructor
  · rintro ⟨entry, hentry, rfl⟩
    obtain ⟨g, hg, hreg⟩ := List.mem_filterMap.1 hentry
    exact ⟨g, hg, isNamed_iff.2 ⟨entry.2, hreg⟩⟩
  · intro ⟨g, hg, hnamed⟩
    obtain ⟨r, hreg⟩ := isNamed_iff.1 hnamed
    exact ⟨(name, r), List.mem_filterMap.2 ⟨g, hg, hreg⟩, rfl⟩

theorem forEachSentinel_named :
    (forEachSentinel (fun s => s.name = name) sentinels).2 = true ↔
      name ∈ (live sentinels).map Prod.fst := by
  have h := @forEachGovernedSentinel_all sentinels (isNamed name)
  refine (h.2.trans ?_).trans mem_names.symm
  refine exists_congr fun g => and_congr_right fun _ => and_iff_right_of_imp fun hnamed => ?_
  obtain ⟨r, hr⟩ := isNamed_iff.1 hnamed
  cases hptr : g.sentinelPtr with
  | none => simp [registered, hptr] at hr
  | some s => rfl

/-! ## The operations -/

theorem live_map {f : GovernorSentinel → GovernorSentinel}
    {h : Name × Registered → Option (Name × Registered)}
    (hf : ∀ g, registered (f g) = (registered g).bind h) :
    live (sentinels.map f) = (live sentinels).filterMap h := by
  rw [live, live, List.filterMap_map, List.filterMap_filterMap]
  exact List.filterMap_congr fun g _ => hf g

theorem live_removeNamed :
    live (sentinels.filter fun g => ¬ isNamed name g) =
      (live sentinels).filter fun entry => entry.1 ≠ name := by
  rw [live, live, List.filterMap_filter, ← List.filterMap_eq_filter, List.filterMap_filterMap]
  refine List.filterMap_congr fun g _ => ?_
  cases hptr : g.sentinelPtr with
  | none => simp [registered, isNamed, hptr]
  | some s =>
      by_cases hname : s.name = name <;>
        simp [registered, isNamed, hptr, hname, Option.guard]

theorem live_ownerDestroyed :
    live (ownerDestroyed name sentinels) = (live sentinels).filter fun entry => entry.1 ≠ name := by
  rw [← List.filterMap_eq_filter]
  refine live_map fun g => ?_
  cases hptr : g.sentinelPtr with
  | none => simp [registered, isNamed, hptr]
  | some s =>
      by_cases hname : s.name = name <;>
        simp [registered, isNamed, hptr, hname, Option.guard]

theorem live_ownerHolds {reason : String} :
    live (ownerHolds name reason sentinels) = (live sentinels).map fun entry =>
      if entry.1 = name then (entry.1, { entry.2 with currentReason := reason }) else entry := by
  rw [← List.filterMap_eq_map]
  refine live_map fun g => ?_
  cases hptr : g.sentinelPtr with
  | none => simp [registered, isNamed, hptr]
  | some s => by_cases hname : s.name = name <;> simp [registered, isNamed, hptr, hname]

/-- As no two live entries have one name, the first of the name is the only one. -/
theorem live_changeNamed {change : GovernorSentinel → GovernorSentinel}
    {f : Registered → Registered}
    (hchange : ∀ g, registered (change g) = (registered g).map fun entry => (entry.1, f entry.2))
    (hnodup : ((live sentinels).map Prod.fst).Nodup) :
    live (changeNamed name change sentinels) = (live sentinels).map fun entry =>
      if entry.1 = name then (entry.1, f entry.2) else entry := by
  induction sentinels with
  | nil => rfl
  | cons g rest ih =>
      rw [changeNamed]
      split
      case isTrue hnamed =>
          obtain ⟨r, hreg⟩ := isNamed_iff.1 hnamed
          rw [live_cons_some hreg, List.map_cons, List.nodup_cons] at hnodup
          rw [live_cons_some hreg, live_cons_some ((hchange g).trans (by rw [hreg]; rfl)),
            List.map_cons, if_pos rfl]
          -- none behind it has the name
          have hsame : ∀ entry ∈ live rest,
              (if entry.1 = name then (entry.1, f entry.2) else entry) = id entry :=
            fun entry hentry => if_neg fun heq =>
              hnodup.1 (List.mem_map.2 ⟨entry, hentry, heq⟩)
          rw [List.map_congr_left hsame, List.map_id]
      case isFalse hnamed =>
          cases hreg : registered g with
          | none =>
              rw [live_cons_none hreg] at hnodup ⊢
              rw [live_cons_none hreg]
              exact ih hnodup
          | some entry =>
              rw [live_cons_some hreg, List.map_cons, List.nodup_cons] at hnodup
              rw [live_cons_some hreg, live_cons_some hreg, List.map_cons, ih hnodup.2, if_neg]
              rintro rfl
              exact hnamed (isNamed_iff.2 ⟨entry.2, hreg⟩)

theorem live_setCpuFrequencyRequest {request : CpuFrequencyMHz}
    (hnodup : ((live sentinels).map Prod.fst).Nodup) :
    live (setCpuFrequencyRequest name request sentinels) = (live sentinels).map fun entry =>
      if entry.1 = name then (entry.1, { entry.2 with requestedFrequency := request })
      else entry :=
  live_changeNamed (f := fun r => { r with requestedFrequency := request })
    (fun g => by simp [registered, Function.comp_def]) hnodup

theorem live_blockWfiMode {request : Bool} (hnodup : ((live sentinels).map Prod.fst).Nodup) :
    live (blockWfiMode name request sentinels) = (live sentinels).map fun entry =>
      if entry.1 = name then (entry.1, { entry.2 with wfiBlocked := request }) else entry :=
  live_changeNamed (f := fun r => { r with wfiBlocked := request })
    (fun g => by simp [registered, Function.comp_def]) hnodup

theorem live_clean : live (clean sentinels) = live sentinels :=
  forEachGovernedSentinel_all.1

theorem live_registerNewSentinel {s : CpuSentinel} {r : Registry}
    (h : live sentinels = r.entries) :
    live (registerNewSentinel (some s) sentinels).1 = (r.register s).entries := by
  have hlive := @live_forEachSentinel sentinels (fun t => t.name = s.name)
  rw [registerNewSentinel, Registry.register]
  by_cases hmem : s.name ∈ r.entries.map Prod.fst
  · rw [dif_pos hmem, if_neg (not_not.2 (forEachSentinel_named.2 (h ▸ hmem))), hlive, h]
  · rw [dif_neg hmem, if_pos fun hfound => hmem (h ▸ forEachSentinel_named.1 hfound), live_append,
      hlive, h]
    rfl

/-- Every operation does to the live entries what it does to the registry. -/
theorem live_step {r : Registry} {e : GovernorEvent} (h : live sentinels = r.entries) :
    live (step sentinels e) = (r.step e).entries := by
  have hnodup : ((live sentinels).map Prod.fst).Nodup := h ▸ r.nodup
  cases e with
  | registerNewSentinel newSentinel =>
      cases newSentinel with
      | none => exact h
      | some s => exact live_registerNewSentinel h
  | removeSentinel name =>
      simp only [step, CpuGovernor.removeSentinel, Registry.step]
      by_cases hname : name = []
      · rw [if_pos hname, if_neg (not_not.2 hname), h]
      · rw [if_neg hname, if_pos hname, live_removeNamed, h]
        rfl
  | setCpuFrequencyRequest name request =>
      exact (live_setCpuFrequencyRequest hnodup).trans (by rw [h]; rfl)
  | resetCpuFrequencyRequest name =>
      exact (live_setCpuFrequencyRequest hnodup).trans (by rw [h]; rfl)
  | blockWfiMode name request => exact (live_blockWfiMode hnodup).trans (by rw [h]; rfl)
  | getMinimumFrequencyRequested =>
      simp only [step, CpuGovernor.getMinimumFrequencyRequested]
      split
      · exact h
      · exact live_clean.trans h
  | isWfiBlocked => exact h
  | inform => exact live_forEachSentinel.trans h
  | ownerDestroyed name => exact live_ownerDestroyed.trans (by rw [h]; rfl)
  | ownerHolds name reason => exact live_ownerHolds.trans (by rw [h]; rfl)

/-! ## The answers -/

theorem foldl_max {list : List GovernorSentinel} {first : GovernorSentinel} :
    let largest := list.foldl
      (fun l r => if l.requestedFrequency < r.requestedFrequency then r else l) first
    largest ∈ first :: list ∧
      ∀ g ∈ first :: list, g.requestedFrequency ≤ largest.requestedFrequency := by
  induction list generalizing first with
  | nil =>
      refine ⟨by simp, fun g hg => ?_⟩
      rw [List.mem_singleton.1 hg]
      exact Nat.le_refl _
  | cons next list ih =>
      rw [List.foldl_cons]
      split
      case isTrue hlt =>
          obtain ⟨hmem, hle⟩ := @ih next
          refine ⟨List.mem_cons_of_mem _ hmem, fun g hg => ?_⟩
          rcases List.mem_cons.1 hg with rfl | hg
          · exact Nat.le_trans (Nat.le_of_lt hlt) (hle next List.mem_cons_self)
          · exact hle g hg
      case isFalse hnot =>
          obtain ⟨hmem, hle⟩ := @ih first
          refine ⟨?_, fun g hg => ?_⟩
          · rcases List.mem_cons.1 hmem with heq | hmem
            · exact List.mem_cons.2 (Or.inl heq)
            · exact List.mem_cons_of_mem _ (List.mem_cons_of_mem _ hmem)
          · rcases List.mem_cons.1 hg with rfl | hg
            · exact hle g List.mem_cons_self
            · rcases List.mem_cons.1 hg with rfl | hg
              · exact Nat.le_trans (Nat.le_of_not_lt hnot) (hle first List.mem_cons_self)
              · exact hle g (List.mem_cons_of_mem _ hg)

theorem maxElement_spec (h : maxElement sentinels = some g) :
    g ∈ sentinels ∧ ∀ other ∈ sentinels, other.requestedFrequency ≤ g.requestedFrequency := by
  cases sentinels with
  | nil => cases h
  | cons first rest =>
      cases h
      exact foldl_max

/-- The largest of the requests, with the sentinel that it is of; the default view without
a sentinel. -/
def IsMinimum (r : Registry) (view : sentinel.View) : Prop :=
  (r.entries = [] ∧ view = { sentinel.View.default with reason := "empty" }) ∨
    ∃ entry ∈ r.entries,
      view = ⟨entry.1, entry.2.requestedFrequency, entry.2.currentReason⟩ ∧
        ∀ other ∈ r.entries, other.2.requestedFrequency ≤ entry.2.requestedFrequency

/-- What the governor answers is true of the registry, and `clean` takes out the expired
entries. -/
structure Honours (sentinels : List GovernorSentinel) (r : Registry) (e : GovernorEvent) :
    Prop where
  minimum : e = .getMinimumFrequencyRequested →
    ∃ view, (getMinimumFrequencyRequested sentinels).2 = some view ∧ IsMinimum r view
  blocked : e = .isWfiBlocked →
    (isWfiBlocked sentinels = true ↔ ∃ entry ∈ r.entries, entry.2.wfiBlocked = true)
  cleans : clean sentinels = sentinels.filter fun g => g.sentinelPtr.isSome

/-- The minimum is asked for with no entry left or with a live one among them, and no expired
entry blocks WFI unless a live one does when that is asked. -/
def LiveAmong (sentinels : List GovernorSentinel) (e : GovernorEvent) : Prop :=
  (e = .getMinimumFrequencyRequested → sentinels = [] ∨ ∃ g ∈ sentinels, g.sentinelPtr.isSome) ∧
    (e = .isWfiBlocked → ∀ g ∈ sentinels, g.wfiBlocked = true →
      ∃ g' ∈ sentinels, g'.sentinelPtr.isSome ∧ g'.wfiBlocked = true)

theorem mem_clean : g ∈ clean sentinels ↔ g ∈ sentinels ∧ g.sentinelPtr.isSome = true := by
  rw [clean_eq, List.mem_filter]

theorem mem_live {entry : Name × Registered} :
    entry ∈ live sentinels ↔ ∃ g ∈ sentinels, registered g = some entry := List.mem_filterMap

theorem registered_some {p : CpuSentinel} (h : g.sentinelPtr = some p) :
    registered g = some (p.name, ⟨p.currentReason, g.requestedFrequency, g.wfiBlocked⟩) := by
  rw [registered, h, Option.map_some]

theorem isSome_of_registered {entry : Name × Registered} (h : registered g = some entry) :
    g.sentinelPtr.isSome = true ∧ entry.2.requestedFrequency = g.requestedFrequency ∧
      entry.2.wfiBlocked = g.wfiBlocked := by
  cases hptr : g.sentinelPtr with
  | none => simp [registered, hptr] at h
  | some p =>
      rw [registered_some hptr] at h
      cases h
      exact ⟨rfl, rfl, rfl⟩

/-- With a live entry there is a largest one after the others are gone. -/
theorem minimum_of_live {r : Registry} (h : live sentinels = r.entries)
    (hlive : ∃ g ∈ sentinels, g.sentinelPtr.isSome) :
    ∃ view, (getMinimumFrequencyRequested sentinels).2 = some view ∧ IsMinimum r view := by
  obtain ⟨g, hg, hsome⟩ := hlive
  have hne : sentinels ≠ [] := List.ne_nil_of_mem hg
  obtain ⟨m, hm⟩ : ∃ m, maxElement (clean sentinels) = some m := by
    cases hclean : clean sentinels with
    | nil =>
        have := mem_clean.2 ⟨hg, hsome⟩
        simp [hclean] at this
    | cons first rest => exact ⟨_, rfl⟩
  obtain ⟨hmem, hle⟩ := maxElement_spec hm
  obtain ⟨hmsent, hmsome⟩ := mem_clean.1 hmem
  obtain ⟨p, hp⟩ := Option.isSome_iff_exists.1 hmsome
  refine ⟨⟨p.name, m.requestedFrequency, p.currentReason⟩, ?_, Or.inr ?_⟩
  · simp only [getMinimumFrequencyRequested, if_neg hne, hm, Option.map_some, hp]
  · refine ⟨_, h ▸ mem_live.2 ⟨m, hmsent, registered_some hp⟩, rfl, fun other hother => ?_⟩
    obtain ⟨o, ho, hreg⟩ := mem_live.1 (h ▸ hother)
    obtain ⟨hosome, hreq, _⟩ := isSome_of_registered hreg
    rw [hreq]
    exact hle o (mem_clean.2 ⟨ho, hosome⟩)

theorem minimum_iff {r : Registry} (h : live sentinels = r.entries) :
    (∃ view, (getMinimumFrequencyRequested sentinels).2 = some view ∧ IsMinimum r view) ↔
      sentinels = [] ∨ ∃ g ∈ sentinels, g.sentinelPtr.isSome := by
  constructor
  · intro ⟨view, hview, _⟩
    by_contra hnot
    rw [not_or] at hnot
    have hclean : clean sentinels = [] := List.eq_nil_iff_forall_not_mem.2 fun g hg =>
      hnot.2 ⟨g, (mem_clean.1 hg).1, (mem_clean.1 hg).2⟩
    simp only [getMinimumFrequencyRequested, if_neg hnot.1, hclean] at hview
    cases hview
  · rintro (rfl | hlive)
    · exact ⟨_, rfl, Or.inl ⟨h.symm, rfl⟩⟩
    · exact minimum_of_live h hlive

theorem blocked_iff {r : Registry} (h : live sentinels = r.entries) :
    (isWfiBlocked sentinels = true ↔ ∃ entry ∈ r.entries, entry.2.wfiBlocked = true) ↔
      ∀ g ∈ sentinels, g.wfiBlocked = true →
        ∃ g' ∈ sentinels, g'.sentinelPtr.isSome ∧ g'.wfiBlocked = true := by
  have hreg : (∃ entry ∈ r.entries, entry.2.wfiBlocked = true) ↔
      ∃ g ∈ sentinels, g.sentinelPtr.isSome ∧ g.wfiBlocked = true := by
    rw [← h]
    constructor
    · intro ⟨entry, hentry, hblocked⟩
      obtain ⟨g, hg, hreg⟩ := mem_live.1 hentry
      obtain ⟨hsome, _, hwfi⟩ := isSome_of_registered hreg
      exact ⟨g, hg, hsome, hwfi ▸ hblocked⟩
    · intro ⟨g, hg, hsome, hblocked⟩
      obtain ⟨p, hp⟩ := Option.isSome_iff_exists.1 hsome
      exact ⟨_, mem_live.2 ⟨g, hg, registered_some hp⟩, hblocked⟩
  rw [hreg, isWfiBlocked, List.any_eq_true]
  constructor
  · intro hiff g hg hblocked
    exact hiff.1 ⟨g, hg, hblocked⟩
  · intro hall
    constructor
    · intro ⟨g, hg, hblocked⟩
      exact hall g hg hblocked
    · intro ⟨g, hg, _, hblocked⟩
      exact ⟨g, hg, hblocked⟩

theorem honours_iff_liveAmong {r : Registry} {e : GovernorEvent}
    (h : live sentinels = r.entries) : Honours sentinels r e ↔ LiveAmong sentinels e := by
  rw [LiveAmong, ← minimum_iff h, ← blocked_iff h]
  exact ⟨fun hh => ⟨hh.minimum, hh.blocked⟩, fun hh => ⟨hh.1, hh.2, clean_eq⟩⟩

/-! ## Runs -/

/-- The governor, and the registry beside it. -/
def stepBoth (s : List GovernorSentinel × Registry) (e : GovernorEvent) :
    List GovernorSentinel × Registry := (step s.1 e, s.2.step e)

/-- In a run the governor honours the live sentinels exactly when at each question for the
minimum there is no entry or a live one, and at each question whether WFI is blocked no expired
entry blocks it unless a live one does. -/
theorem honours_iff :
    EveryStep (fun s e => Honours s.1 s.2 e) stepBoth ([], Registry.empty) events ↔
      EveryStep (fun s e => LiveAmong s.1 e) stepBoth ([], Registry.empty) events :=
  @everyStep_congr (List GovernorSentinel × Registry) GovernorEvent
    (fun s => live s.1 = s.2.entries) _ (fun s e => LiveAmong s.1 e) stepBoth
    (fun _ _ h => honours_iff_liveAmong h) (fun _ _ h _ => live_step h) _ _ rfl

/-- The only owner is gone when the minimum is asked for. -/
theorem end_dereferenced :
    ¬ EveryStep (fun s e => Honours s.1 s.2 e) stepBoth ([], Registry.empty)
      [.registerNewSentinel (some ⟨[1], ""⟩), .ownerDestroyed [1],
        .getMinimumFrequencyRequested] := by
  intro h
  obtain ⟨view, hview, _⟩ := h.2.2.1.minimum rfl
  cases hview

end CpuGovernor

end MuditaOS.Sys

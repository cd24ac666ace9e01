import MuditaOS.Lib.Search

/-!
# Search and replace

Two ways to replace a pattern in a text. `replacePass` goes over the text once, from left to
right, and does not look at what it has put in. `rewrite` replaces the leftmost occurrence and
begins again, until there is none; it may find occurrences that a replacement has made, and need
not end. Where each of the occurrences of the pass is, when its turn comes, as good as the
leftmost one, the two agree.
-/

namespace MuditaOS.Lib

variable {α : Type*} [DecidableEq α] {pat rep : List α}

section

variable (pat rep : List α)

/-- One pass, over a text whose first elements belong to an occurrence already replaced. -/
def replacePass : Nat → List α → List α
  | _, [] => []
  | covered + 1, _ :: text => replacePass covered text
  | 0, a :: text =>
      if pat <+: a :: text then rep ++ replacePass (pat.length - 1) text
      else a :: replacePass 0 text

/-- The leftmost occurrence, if there is one. -/
def replaceFirst (text : List α) : Option (List α) :=
  (find pat text 0).map fun pos => text.take pos ++ rep ++ text.drop (pos + pat.length)

/-- The leftmost occurrence over and over, with no result where the fuel does not last. -/
def rewrite : Nat → List α → Option (List α)
  | 0, _ => none
  | fuel + 1, text =>
      match replaceFirst pat rep text with
      | none => some text
      | some text => rewrite fuel text

/-- Behind `done`, which the pass has left: to replace the next occurrence of the pass is to
replace the leftmost one, and in the end there is none. -/
def settled : List α → Nat → List α → Bool
  | done, _, [] => find pat done 0 = none
  | done, covered + 1, _ :: text => settled done covered text
  | done, 0, a :: text =>
      if pat <+: a :: text then
        replaceFirst pat rep (done ++ a :: text) = some (done ++ rep ++ (a :: text).drop pat.length)
          && settled (done ++ rep) (pat.length - 1) text
      else settled (done ++ [a]) 0 text

end

theorem replaceFirst_eq_none_iff {text : List α} :
    replaceFirst pat rep text = none ↔ find pat text 0 = none := Option.map_eq_none_iff

/-- What is left in the end has no occurrence. -/
theorem find_of_rewrite {out : List α} : ∀ {fuel : Nat} {text : List α},
    rewrite pat rep fuel text = some out → find pat out 0 = none
  | fuel + 1, text, hsome => by
      rw [rewrite] at hsome
      split at hsome
      · rename_i hnone
        obtain rfl := Option.some.inj hsome
        exact replaceFirst_eq_none_iff.mp hnone
      · exact find_of_rewrite hsome

theorem rewrite_of_none {text : List α} (hnone : find pat text 0 = none) :
    rewrite pat rep 1 text = some text := by
  rw [rewrite, replaceFirst_eq_none_iff.mpr hnone]

theorem rewrite_of_some {fuel : Nat} {text next : List α}
    (hsome : replaceFirst pat rep text = some next) :
    rewrite pat rep (fuel + 1) text = rewrite pat rep fuel next := by
  rw [rewrite, hsome]

theorem find_eq_none_iff {text : List α} : find pat text 0 = none ↔ ¬ pat <:+: text := by
  rw [find, if_pos (Nat.zero_le _), List.drop_zero, findAux_eq_none]
  constructor
  · rintro hnone ⟨pre, post, rfl⟩
    refine hnone pre.length (by simp) ?_
    rw [OccursAt, List.append_assoc, List.drop_left]
    exact List.prefix_append _ _
  · exact fun hnot k _ hocc => hnot hocc.isInfix

theorem replacePass_of_absent : ∀ {text : List α}, ¬ pat <:+: text →
    replacePass pat rep 0 text = text
  | [], _ => rfl
  | a :: text, hnot => by
      have hhere : ¬ pat <+: a :: text := fun hfront => hnot hfront.isInfix
      have hrest : ¬ pat <:+: text := fun hlater => hnot (List.infix_cons hlater)
      rw [replacePass, if_neg hhere, replacePass_of_absent hrest]

/-- A replacement that contains its pattern leaves one behind. -/
theorem rewrite_of_contained (hrep : pat <:+: rep) : ∀ {fuel : Nat} {text : List α},
    pat <:+: text → rewrite pat rep fuel text = none
  | 0, _, _ => rfl
  | fuel + 1, text, htext => by
      cases hfirst : replaceFirst pat rep text with
      | none => exact absurd htext (find_eq_none_iff.mp (replaceFirst_eq_none_iff.mp hfirst))
      | some next =>
          obtain ⟨pos, _, rfl⟩ := Option.map_eq_some_iff.mp hfirst
          rw [rewrite_of_some hfirst]
          exact rewrite_of_contained hrep (hrep.trans ⟨_, _, rfl⟩)

/-- The induction of the pass; the text is what is done and what is not yet covered. -/
theorem rewrite_of_settled (hne : pat ≠ []) : ∀ {text done : List α} {covered : Nat},
    settled pat rep done covered text = true →
    ∃ fuel, rewrite pat rep fuel (done ++ text.drop covered) =
      some (done ++ replacePass pat rep covered text)
  | [], done, covered, hsettled => by
      rw [settled, decide_eq_true_eq] at hsettled
      rw [List.drop_nil, replacePass, List.append_nil]
      exact ⟨1, rewrite_of_none hsettled⟩
  | a :: text, done, covered + 1, hsettled => by
      rw [settled] at hsettled
      rw [List.drop_succ_cons, replacePass]
      exact rewrite_of_settled hne hsettled
  | a :: text, done, 0, hsettled => by
      rw [settled] at hsettled
      rw [List.drop_zero, replacePass]
      split at hsettled
      · rename_i hhere
        rw [Bool.and_eq_true, decide_eq_true_eq] at hsettled
        obtain ⟨hfirst, hrest⟩ := hsettled
        obtain ⟨fuel, hfuel⟩ := rewrite_of_settled hne hrest
        obtain ⟨b, pat', rfl⟩ := List.exists_cons_of_ne_nil hne
        rw [if_pos hhere, ← List.append_assoc]
        exact ⟨fuel + 1, (rewrite_of_some hfirst).trans hfuel⟩
      · rename_i hhere
        obtain ⟨fuel, hfuel⟩ := rewrite_of_settled hne hsettled
        rw [if_neg hhere]
        rw [List.drop_zero, List.append_assoc, List.append_assoc] at hfuel
        exact ⟨fuel, hfuel⟩

/-! ## And back

A replacement that differs from its pattern somewhere leaves a trace where it is put in too
early, which no later one takes away. -/

/-- The occurrence that is replaced, and that none begins in front of it. -/
theorem replaceFirst_eq_some {text next : List α}
    (hsome : replaceFirst pat rep text = some next) :
    ∃ pre post, text = pre ++ pat ++ post ∧ next = pre ++ rep ++ post ∧
      ∀ k < pre.length, ¬ OccursAt pat text k := by
  obtain ⟨pos, hfind, rfl⟩ := Option.map_eq_some_iff.mp hsome
  rw [find, if_pos (Nat.zero_le _), List.drop_zero, findAux_eq_some, Nat.zero_add,
    Nat.sub_zero] at hfind
  obtain ⟨_, hle, ⟨post, hpost⟩, hfirst⟩ := hfind
  have htext : text = text.take pos ++ pat ++ post := by
    rw [List.append_assoc, hpost, List.take_append_drop]
  have hdrop : text.drop (pos + pat.length) = post := by
    rw [← List.drop_drop, ← hpost, List.drop_left]
  refine ⟨text.take pos, post, htext, by rw [hdrop], fun k hk => hfirst k ?_⟩
  rw [List.length_take] at hk
  omega

/-- The first place at which the two differ. -/
structure DifferAt (pat rep : List α) (e : Nat) : Prop where
  agree : pat.take e = rep.take e
  pat_lt : e < pat.length
  rep_lt : e < rep.length
  differ : pat[e]? ≠ rep[e]?

omit [DecidableEq α] in
theorem exists_differAt : ∀ {pat rep : List α}, ¬ pat <+: rep → ¬ rep <+: pat →
    ∃ e, DifferAt pat rep e
  | [], rep, hpat, _ => absurd List.nil_prefix hpat
  | _ :: _, [], _, hrep => absurd List.nil_prefix hrep
  | a :: pat, b :: rep, hpat, hrep => by
      by_cases hhead : a = b
      · subst hhead
        rw [List.prefix_cons_inj] at hpat hrep
        obtain ⟨e, hagree, hpatLt, hrepLt, hdiffer⟩ := exists_differAt hpat hrep
        exact ⟨e + 1, by rw [List.take_succ_cons, List.take_succ_cons, hagree],
          Nat.succ_lt_succ hpatLt, Nat.succ_lt_succ hrepLt, hdiffer⟩
      · exact ⟨0, rfl, Nat.zero_lt_succ _, Nat.zero_lt_succ _, fun h => hhead (Option.some.inj h)⟩

/-- Up to some place as `out`, and there with the replacement's element for the pattern's. -/
def Strays (pat rep : List α) (e : Nat) (out text : List α) : Prop :=
  ∃ f, text.take f = out.take f ∧ text[f]? = rep[e]? ∧ out[f]? = pat[e]?

omit [DecidableEq α] in
theorem not_strays_self {e : Nat} {out : List α} (hdiffer : DifferAt pat rep e) :
    ¬ Strays pat rep e out out :=
  fun ⟨_, _, hrep, hpat⟩ => hdiffer.differ (hpat.symm.trans hrep)

section

variable {e : Nat} {out pre post : List α}

omit [DecidableEq α] in
theorem take_replaced (hdiffer : DifferAt pat rep e) {f : Nat} (hf : f ≤ pre.length + e) :
    (pre ++ rep ++ post).take f = (pre ++ pat ++ post).take f := by
  have hfull : (pre ++ rep ++ post).take (pre.length + e) =
      (pre ++ pat ++ post).take (pre.length + e) := by
    rw [List.append_assoc, List.append_assoc, List.take_length_add_append,
      List.take_length_add_append, List.take_append_of_le_length (Nat.le_of_lt hdiffer.rep_lt),
      List.take_append_of_le_length (Nat.le_of_lt hdiffer.pat_lt), hdiffer.agree]
  have htake := congrArg (List.take f) hfull
  rwa [List.take_take, List.take_take, Nat.min_eq_left hf] at htake

omit [DecidableEq α] in
theorem getElem_replaced (hlt : e < rep.length) :
    (pre ++ rep ++ post)[pre.length + e]? = rep[e]? := by
  rw [List.append_assoc, List.getElem?_append_right (Nat.le_add_right _ _),
    Nat.add_sub_cancel_left, List.getElem?_append_left hlt]

omit [DecidableEq α] in
theorem getElem_of_take {f k : Nat} {text next : List α} (htake : next.take f = text.take f)
    (hk : k < f) : next[k]? = text[k]? := by
  rw [← List.getElem?_take_of_lt hk, htake, List.getElem?_take_of_lt hk]

omit [DecidableEq α] in
theorem strays_replaced (hdiffer : DifferAt pat rep e)
    (hstrays : Strays pat rep e out (pre ++ pat ++ post)) :
    Strays pat rep e out (pre ++ rep ++ post) := by
  obtain ⟨f, htake, hrep, hpat⟩ := hstrays
  rcases Nat.lt_trichotomy f (pre.length + e) with hlt | rfl | hgt
  · refine ⟨f, ?_, ?_, hpat⟩
    · rw [take_replaced hdiffer (Nat.le_of_lt hlt), htake]
    · rw [getElem_of_take (take_replaced hdiffer (Nat.le_refl _)) hlt, hrep]
  · rw [getElem_replaced hdiffer.pat_lt] at hrep
    exact absurd hrep hdiffer.differ
  · refine ⟨pre.length + e, ?_, getElem_replaced hdiffer.rep_lt, ?_⟩
    · have hshort := congrArg (List.take (pre.length + e)) htake
      rw [List.take_take, List.take_take, Nat.min_eq_left (Nat.le_of_lt hgt)] at hshort
      rw [take_replaced hdiffer (Nat.le_refl _), hshort]
    · rw [← getElem_of_take htake hgt, getElem_replaced hdiffer.pat_lt]

end

omit [DecidableEq α] in
/-- An occurrence in front of the one that `out` has replaced. -/
theorem strays_of_early {e : Nat} {pre post done rest tail : List α}
    (hdiffer : DifferAt pat rep e) (htext : done ++ pat ++ rest = pre ++ pat ++ post)
    (hlt : pre.length < done.length) :
    Strays pat rep e (done ++ rep ++ tail) (pre ++ rep ++ post) := by
  have hout : (done ++ rep ++ tail).take (done.length + e) =
      (pre ++ pat ++ post).take (done.length + e) := by
    rw [← htext, List.append_assoc, List.append_assoc, List.take_length_add_append,
      List.take_length_add_append, List.take_append_of_le_length (Nat.le_of_lt hdiffer.rep_lt),
      List.take_append_of_le_length (Nat.le_of_lt hdiffer.pat_lt), hdiffer.agree]
  refine ⟨pre.length + e, ?_, getElem_replaced hdiffer.rep_lt, ?_⟩
  · have hshort := congrArg (List.take (pre.length + e)) hout
    rw [List.take_take, List.take_take, Nat.min_eq_left (by omega)] at hshort
    rw [take_replaced hdiffer (Nat.le_refl _), hshort]
  · rw [getElem_of_take hout (by omega), getElem_replaced hdiffer.pat_lt]

theorem not_strays_of_rewrite {e : Nat} {out : List α} (hdiffer : DifferAt pat rep e) :
    ∀ {fuel : Nat} {text : List α}, rewrite pat rep fuel text = some out →
      ¬ Strays pat rep e out text
  | fuel + 1, text, hsome => by
      intro hstrays
      cases hfirst : replaceFirst pat rep text with
      | none =>
          rw [rewrite, hfirst] at hsome
          obtain rfl : text = out := Option.some.inj hsome
          exact not_strays_self hdiffer hstrays
      | some next =>
          obtain ⟨pre, post, rfl, rfl, _⟩ := replaceFirst_eq_some hfirst
          rw [rewrite_of_some hfirst] at hsome
          exact not_strays_of_rewrite hdiffer hsome (strays_replaced hdiffer hstrays)

/-- If the text of the pass comes out, it is the occurrence of the pass that was replaced. -/
theorem replaceFirst_of_rewrite {e fuel : Nat} {done rest tail : List α}
    (hdiffer : DifferAt pat rep e)
    (hsome : rewrite pat rep fuel (done ++ pat ++ rest) = some (done ++ rep ++ tail)) :
    replaceFirst pat rep (done ++ pat ++ rest) = some (done ++ rep ++ rest) ∧
      ∃ fuel, rewrite pat rep fuel (done ++ rep ++ rest) = some (done ++ rep ++ tail) := by
  have hocc : OccursAt pat (done ++ pat ++ rest) done.length := by
    rw [OccursAt, List.append_assoc, List.drop_left]
    exact List.prefix_append _ _
  cases hfirst : replaceFirst pat rep (done ++ pat ++ rest) with
  | none =>
      exact absurd hocc.isInfix (find_eq_none_iff.mp (replaceFirst_eq_none_iff.mp hfirst))
  | some next =>
      obtain ⟨pre, post, htext, rfl, hleft⟩ := replaceFirst_eq_some hfirst
      cases fuel with
      | zero => cases hsome
      | succ fuel =>
          rw [rewrite_of_some hfirst] at hsome
          have hge : done.length ≤ pre.length := by
            by_contra hlt
            exact not_strays_of_rewrite hdiffer hsome
              (strays_of_early hdiffer htext (Nat.lt_of_not_le hlt))
          have hlength : done.length = pre.length := by
            by_contra hne
            exact hleft done.length (Nat.lt_of_le_of_ne hge hne) hocc
          rw [List.append_assoc, List.append_assoc] at htext
          obtain ⟨rfl, hpost⟩ := List.append_inj htext hlength
          obtain rfl := List.append_cancel_left hpost
          exact ⟨rfl, fuel, hsome⟩

theorem settled_of_rewrite {e : Nat} (hdiffer : DifferAt pat rep e) :
    ∀ {text done : List α} {covered fuel : Nat},
      rewrite pat rep fuel (done ++ text.drop covered) =
        some (done ++ replacePass pat rep covered text) →
      settled pat rep done covered text = true
  | [], done, covered, fuel, hsome => by
      rw [settled, decide_eq_true_eq]
      have hfind := find_of_rewrite hsome
      rwa [replacePass, List.append_nil] at hfind
  | a :: text, done, covered + 1, fuel, hsome => by
      rw [List.drop_succ_cons, replacePass] at hsome
      rw [settled]
      exact settled_of_rewrite hdiffer hsome
  | a :: text, done, 0, fuel, hsome => by
      rw [List.drop_zero, replacePass] at hsome
      rw [settled]
      split at hsome
      · rename_i hhere
        obtain ⟨rest, hrest⟩ := hhere
        have hpos : pat.length - 1 + 1 = pat.length :=
          Nat.sub_add_cancel (Nat.lt_of_le_of_lt (Nat.zero_le e) hdiffer.pat_lt)
        have hcovered : text.drop (pat.length - 1) = rest := by
          rw [← List.drop_succ_cons (a := a), hpos, ← hrest, List.drop_left]
        rw [← hrest, ← List.append_assoc, ← List.append_assoc] at hsome
        obtain ⟨hfirst, more, hmore⟩ := replaceFirst_of_rewrite hdiffer hsome
        rw [← hcovered] at hmore
        rw [if_pos ⟨rest, hrest⟩, ← hrest, List.drop_left, ← List.append_assoc, hfirst,
          settled_of_rewrite hdiffer hmore]
        simp
      · rename_i hhere
        rw [if_neg hhere]
        have hnext : rewrite pat rep fuel (done ++ [a] ++ text.drop 0) =
            some (done ++ [a] ++ replacePass pat rep 0 text) := by
          rw [List.drop_zero, List.append_assoc, List.append_assoc]
          exact hsome
        exact settled_of_rewrite hdiffer hnext

theorem settled_of_absent : ∀ {text done : List α}, ¬ pat <:+: done ++ text →
    settled pat rep done 0 text = true
  | [], done, hnot => by
      rw [List.append_nil] at hnot
      rw [settled, find_eq_none_iff.mpr hnot]
      rfl
  | a :: text, done, hnot => by
      have hhere : ¬ pat <+: a :: text :=
        fun hfront => hnot (hfront.isInfix.trans (List.suffix_append _ _).isInfix)
      rw [settled, if_neg hhere]
      refine settled_of_absent ?_
      rwa [List.append_assoc]

/-- For a replacement that its pattern does not begin with the condition is exact. -/
theorem settled_iff {text : List α} (hne : pat ≠ []) (hrep : ¬ rep <+: pat) :
    settled pat rep [] 0 text = true ↔
      ∃ fuel, rewrite pat rep fuel text = some (replacePass pat rep 0 text) := by
  constructor
  · exact fun hsettled => rewrite_of_settled hne hsettled
  · rintro ⟨fuel, hsome⟩
    by_cases hpat : pat <+: rep
    · refine settled_of_absent fun htext => ?_
      rw [List.nil_append] at htext
      rw [rewrite_of_contained hpat.isInfix htext] at hsome
      exact nomatch hsome
    · obtain ⟨e, hdiffer⟩ := exists_differAt hpat hrep
      exact settled_of_rewrite hdiffer hsome

end MuditaOS.Lib

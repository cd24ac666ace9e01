import MuditaOS.Cellular.AtStream

/-!
# What the AT stream reads of its lines

A buffer is seen as its complete lines and an incomplete one behind them,
`joined done r`. The two checks of `parse` are searches for delimiters with
arithmetic on the positions; here is which text they hand to `parseState`. The
check of the beginning takes the line behind an opening delimiter. The check of
the end takes the last complete line, except that the position arithmetic wraps
when the only delimiter of the buffer stands at position 0 or 1: then the second
search finds the same delimiter again and the text is the incomplete line
behind it.
-/

namespace MuditaOS.Cellular

open MuditaOS.Lib

/-- No delimiter inside. -/
def Free (s : List UInt8) : Prop := ¬ delimiter <:+: s

/-- The complete lines, each behind its text the delimiter, and the rest. -/
def joined (done : List (List UInt8)) (r : List UInt8) : List UInt8 :=
  (done.map (· ++ delimiter)).flatten ++ r

@[simp] theorem joined_nil {r : List UInt8} : joined [] r = r := rfl

theorem joined_cons {l : List UInt8} {ls : List (List UInt8)} {r : List UInt8} :
    joined (l :: ls) r = l ++ delimiter ++ joined ls r := by
  simp [joined]

theorem joined_concat {ls : List (List UInt8)} {l r : List UInt8} :
    joined (ls ++ [l]) r = joined ls l ++ delimiter ++ r := by
  simp [joined]

/-! ## Where the delimiters are -/

theorem occursAt_delimiter {s : List UInt8} {k : Nat} :
    OccursAt delimiter s k ↔ s[k]? = some cr ∧ s[k + 1]? = some lf := by
  rw [OccursAt, delimiter, ← List.head?_drop,
    show s[k + 1]? = (s.drop k)[1]? by rw [List.getElem?_drop]]
  rcases s.drop k with _ | ⟨a, _ | ⟨b, rest⟩⟩
  · simp
  · simp
  · simp [List.cons_prefix_cons, eq_comm]

theorem occursAt_joint {s t : List UInt8} :
    OccursAt delimiter (s ++ delimiter ++ t) s.length := by
  have h : OccursAt delimiter (delimiter ++ t) 0 := List.prefix_append _ _
  rw [List.append_assoc]
  exact occursAt_append_right.2 h

/-- The first delimiter behind a free text. -/
theorem Free.le_of_occursAt {s t : List UInt8} {k : Nat} (hs : Free s)
    (h : OccursAt delimiter (s ++ delimiter ++ t) k) : s.length ≤ k := by
  by_contra hlt
  rcases Nat.lt_or_ge (k + 1) s.length with hin | hjoint
  · rw [List.append_assoc] at h
    exact hs (h.of_append hin).isInfix
  · -- the LF would have to be the CR of the delimiter
    have hcr := (occursAt_delimiter.1 h).2
    have hk : k + 1 = s.length := by omega
    rw [hk, (occursAt_delimiter.1 (occursAt_joint (t := t))).1] at hcr
    exact absurd hcr (by decide)

/-- The last delimiter in front of a free text. -/
theorem Free.occursAt_le {s t : List UInt8} {k : Nat} (ht : Free t)
    (h : OccursAt delimiter (s ++ delimiter ++ t) k) : k ≤ s.length := by
  by_contra hlt
  have hcases : k = s.length + 1 ∨
      ∃ j, k = (s ++ delimiter).length + j := by
    rcases Nat.lt_or_ge (s.length + 1) k with h' | h'
    · exact .inr ⟨k - (s.length + 2), by simp [delimiter]; omega⟩
    · exact .inl (by omega)
  rcases hcases with rfl | ⟨j, rfl⟩
  · have hcr := (occursAt_delimiter.1 h).1
    rw [(occursAt_delimiter.1 occursAt_joint).2] at hcr
    exact absurd hcr (by decide)
  · exact ht (occursAt_append_right.1 h).isInfix

theorem findAux_joint {s t : List UInt8} {i : Nat} (hs : Free s) :
    findAux delimiter (s ++ delimiter ++ t) i = some (i + s.length) := by
  rw [findAux_eq_some]
  refine ⟨by omega, by simp, ?_, fun k hk hocc => ?_⟩
  · rw [Nat.add_sub_cancel_left]
    exact occursAt_joint
  · have := hs.le_of_occursAt hocc
    omega

theorem findAux_free {s : List UInt8} {i : Nat} (hs : Free s) :
    findAux delimiter s i = none :=
  findAux_eq_none.2 fun _ _ hocc => hs hocc.isInfix

/-! ## The two checks -/

namespace ATStream

/-- What both checks do with the text they found. -/
def settle (st : ATStream) (rr : List UInt8) : Bool × ATStream :=
  let (code, errcode) := parseState rr st.errcode
  let st := { st with errcode := errcode }
  if code ≠ .none then (true, { st with result.code := code }) else (false, st)

/-- A text that is no status leaves the error code alone. -/
theorem parseState_none {state : List UInt8} {errcode : UInt32}
    (h : (parseState state errcode).1 = .none) :
    parseState state errcode = (.none, errcode) := by
  rw [parseState] at h ⊢
  cases hstate : convertMap.lookup state with
  | some code =>
      simp only [hstate] at h ⊢
      split at h
      · cases h
      · next hcode => rw [if_neg hcode, show code = .none from h]
  | none =>
      simp only [hstate] at h ⊢
      cases hcmx : convertMap.lookup
          (substr state 0 (some Channel.cmeError.length)) with
      | none => rfl
      | some code =>
          simp only [hcmx] at h ⊢
          split at h
          · next hcode =>
              exfalso
              split at h
              · cases h
              · split at h
                · cases h
                · rw [show code = .none from h] at hcode
                  rcases hcode with hcode | hcode
                  · cases hcode
                  · cases hcode
          · next hcode => rw [if_neg hcode]

theorem settle_none {st : ATStream} {rr : List UInt8}
    (h : (parseState rr st.errcode).1 = .none) : st.settle rr = (false, st) := by
  rw [settle, parseState_none h]
  rfl

theorem settle_some {st : ATStream} {rr : List UInt8}
    (h : (parseState rr st.errcode).1 ≠ .none) :
    st.settle rr = (true,
      { st with
        errcode := (parseState rr st.errcode).2
        result.code := (parseState rr st.errcode).1 }) := by
  rw [settle]
  exact if_pos h

/-- The check of the beginning, on a buffer that starts with a delimiter. -/
theorem checkATBegin_joined {st : ATStream} {ls : List (List UInt8)}
    {r : List UInt8} (hbuffer : st.atBuffer = joined ([] :: ls) r)
    (hls : ∀ l ∈ ls, Free l) (hr : Free r) :
    st.checkATBegin =
      match ls with
      | [] => (false, st)
      | l :: _ => settle { st with beginChecked := true } l := by
  have hfind : find delimiter st.atBuffer delimiter.length =
      findAux delimiter (joined ls r) delimiter.length := by
    rw [find, hbuffer, joined_cons, List.nil_append, List.drop_left, if_pos]
    rw [List.length_append]
    omega
  rw [checkATBegin, hfind]
  cases ls with
  | nil => rw [joined_nil, findAux_free hr]
  | cons l ls =>
      rw [joined_cons, findAux_joint (hls l List.mem_cons_self)]
      have hrr : substr st.atBuffer delimiter.length
          (some (delimiter.length + l.length - delimiter.length)) = l := by
        rw [substr, hbuffer, joined_cons, joined_cons, List.nil_append,
          List.drop_left, Nat.add_sub_cancel_left, Option.getD_some,
          List.append_assoc, List.take_left]
      simp only [hrr]
      rfl

/-- The text that the check of the end takes. -/
def endText (done : List (List UInt8)) (r : List UInt8) : List UInt8 :=
  match done.reverse with
  | [] => []
  | [l] => if l.length < delimiter.length then r else []
  | l :: _ :: _ => l

theorem parseState_nil {errcode : UInt32} :
    (parseState [] errcode).1 = .none := by
  rfl

theorem rfind_joint {s t : List UInt8} (ht : Free t) :
    rfind delimiter (s ++ delimiter ++ t) none = some s.length := by
  rw [rfind, rfindAux_eq_some]
  exact ⟨by simp, occursAt_joint, fun k hk _ hocc => by
    have := ht.occursAt_le hocc
    omega⟩

/-- The second search, up to the end of the last but one line. -/
theorem rfind_joint_before {s l t : List UInt8} (hl : Free l) :
    rfind delimiter (s ++ delimiter ++ l ++ delimiter ++ t)
      (sizeSub (s ++ delimiter ++ l).length delimiter.length) =
      some s.length := by
  have hlen : (s ++ delimiter ++ l).length = s.length + l.length + 2 := by
    simp [delimiter]; omega
  rw [sizeSub, hlen, if_pos (by simp [delimiter]), rfind, rfindAux_eq_some,
    Option.getD_some]
  refine ⟨by simp [delimiter], ?_, fun k hk hle hocc => ?_⟩
  · rw [List.append_assoc _ delimiter t]
    exact occursAt_joint.append _
  · rw [List.append_assoc _ delimiter t] at hocc
    have := hl.occursAt_le (hocc.of_append (by
      simp [delimiter] at hle ⊢; omega))
    omega

/-- The only line of the buffer is too long for the position to wrap: there is
no second delimiter. -/
theorem rfind_single {l t : List UInt8} (hl : Free l)
    (hlong : delimiter.length ≤ l.length) :
    rfind delimiter (l ++ delimiter ++ t)
      (sizeSub l.length delimiter.length) = none := by
  rw [sizeSub, if_pos hlong, rfind, rfindAux_eq_none, List.append_assoc]
  intro k hk hocc
  have hle := Nat.le_trans hk (Nat.min_le_left _ _)
  rw [Option.getD_some] at hle
  exact hl (OccursAt.of_append hocc (by omega)).isInfix

theorem checkATEnd_single {st : ATStream} {l r : List UInt8}
    (hbuffer : st.atBuffer = l ++ delimiter ++ r) (hl : Free l) (hr : Free r) :
    st.checkATEnd = st.settle (endText [l] r) := by
  have hpos : rfind delimiter st.atBuffer none = some l.length := by
    rw [hbuffer]
    exact rfind_joint hr
  rw [checkATEnd, hpos]
  simp only []
  by_cases hshort : l.length < delimiter.length
  · -- the position wraps and the search starts over from the end
    rw [sizeSub, if_neg (by omega), hpos, show endText [l] r = r from if_pos hshort]
    have hrr : substr st.atBuffer (l.length + delimiter.length)
        (sizeSub (l.length - l.length) delimiter.length) = r := by
      rw [hbuffer, ← List.length_append, substr, List.drop_left, Nat.sub_self]
      exact List.take_of_length_le (by simp [sizeSub, delimiter]; omega)
    simp only [hrr]
    rfl
  · rw [hbuffer, rfind_single hl (by omega),
      show endText [l] r = [] from if_neg hshort, settle_none parseState_nil]

theorem checkATEnd_many {st : ATStream} {s l r : List UInt8}
    (hbuffer : st.atBuffer = s ++ delimiter ++ l ++ delimiter ++ r)
    (hl : Free l) (hr : Free r) : st.checkATEnd = st.settle l := by
  have hpos : rfind delimiter st.atBuffer none =
      some (s ++ delimiter ++ l).length := by
    rw [hbuffer]
    exact rfind_joint hr
  have hpos2 : rfind delimiter st.atBuffer
      (sizeSub (s ++ delimiter ++ l).length delimiter.length) =
        some s.length := by
    rw [hbuffer]
    exact rfind_joint_before hl
  rw [checkATEnd, hpos]
  simp only [hpos2]
  have hrr : substr st.atBuffer (s.length + delimiter.length)
      (sizeSub ((s ++ delimiter ++ l).length - s.length) delimiter.length) = l := by
    have hlen : sizeSub ((s ++ delimiter ++ l).length - s.length)
        delimiter.length = some l.length := by
      rw [sizeSub, if_pos]
      · congr 1
        simp [delimiter]
      · simp [delimiter]
    rw [hlen, hbuffer, ← List.length_append, substr, List.append_assoc,
      List.append_assoc _ l, List.drop_left, Option.getD_some, List.take_left]
  simp only [hrr]
  rfl

theorem checkATEnd_joined {st : ATStream} {done : List (List UInt8)}
    {r : List UInt8} (hbuffer : st.atBuffer = joined done r)
    (hdone : ∀ l ∈ done, Free l) (hr : Free r) :
    st.checkATEnd = st.settle (endText done r) := by
  rcases List.eq_nil_or_concat done with rfl | ⟨init, l, rfl⟩
  · have hnone : rfind delimiter st.atBuffer none = none := by
      rw [hbuffer, rfind, rfindAux_eq_none]
      exact fun k _ hocc => hr hocc.isInfix
    rw [checkATEnd, hnone, settle_none]
    exact parseState_nil
  · rw [List.concat_eq_append] at hbuffer hdone ⊢
    have hl : Free l := hdone l (by simp)
    rcases List.eq_nil_or_concat init with rfl | ⟨init, l', rfl⟩
    · rw [List.nil_append, joined_cons, joined_nil] at hbuffer
      exact checkATEnd_single hbuffer hl hr
    · rw [List.concat_eq_append, joined_concat, joined_concat] at hbuffer
      rw [checkATEnd_many hbuffer hl hr, List.concat_eq_append]
      simp [endText]

end ATStream

end MuditaOS.Cellular

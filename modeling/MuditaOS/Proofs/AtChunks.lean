import Mathlib
import MuditaOS.Lib.Cut
import MuditaOS.Proofs.AtLines

/-!
# Cutting an AT response

A stream that is not ready has only gathered: its state is the bytes written
and whether the beginning was checked (`writeAll_waiting`). So whether it is
ready after a chunk is decided by the bytes up to there, by `parse`, and for the
bytes of a response that are not all of it the answer is no, except where they
show an early status: their only delimiter stands at position 0 or 1 and the
incomplete line behind it already reads as a status. Then the stream is ready
with that status, and takes nothing more.

So a response is assembled whatever the cut exactly when no cut shows an early
status.
-/

namespace MuditaOS.Cellular

open MuditaOS.Lib

/-- A number as the modem prints it. -/
structure Decimal where
  digits : List UInt8
  nonempty : digits ≠ []
  isDigit : ∀ c ∈ digits, 0x30 ≤ c ∧ c ≤ 0x39

/-- The final result codes. -/
inductive Status where
  | ok
  | error
  | cmeError (n : Decimal)
  | cmsError (n : Decimal)

def Status.text : Status → List UInt8
  | .ok => Channel.ok
  | .error => Channel.error
  | .cmeError n => Channel.cmeError ++ 0x20 :: n.digits
  | .cmsError n => Channel.cmsError ++ 0x20 :: n.digits

/-- A response: lines that are no status, each behind its text the delimiter,
and the status between delimiters. An empty line is the delimiter in front of
the line that follows it. -/
structure Response where
  lines : List (List UInt8)
  free : ∀ l ∈ lines, Free l
  noStatus : ∀ l ∈ lines, (ATStream.parseState l 0).1 = .none
  status : Status

def Response.segments (r : Response) : List (List UInt8) :=
  r.lines ++ [[], r.status.text]

def Response.bytes (r : Response) : List UInt8 := joined r.segments []

/-- The only delimiter of the bytes stands at position 0 or 1, and the
incomplete line behind it reads as a status. -/
def EarlyStatus (p : List UInt8) : Prop :=
  ∃ x rest, p = x ++ delimiter ++ rest ∧ x.length < delimiter.length ∧
    Free rest ∧ (ATStream.parseState rest 0).1 ≠ .none

/-! ## The parts of a response -/

theorem free_of_not_mem {s : List UInt8} (h : cr ∉ s) : Free s :=
  fun hin => h (hin.subset (by simp [delimiter]))

theorem free_nil : Free [] := free_of_not_mem (by simp)

theorem Decimal.cr_not_mem (n : Decimal) : cr ∉ n.digits := by
  intro h
  exact absurd (n.isDigit cr h).1 (by decide)

theorem Status.free (s : Status) : Free s.text := by
  refine free_of_not_mem ?_
  cases s with
  | ok => decide
  | error => decide
  | cmeError n =>
      have := n.cr_not_mem
      simp [Status.text, Channel.cmeError, cr] at this ⊢
      exact this
  | cmsError n =>
      have := n.cr_not_mem
      simp [Status.text, Channel.cmsError, cr] at this ⊢
      exact this

theorem lookup_cmx {head rest : List UInt8} {code : Result.Code}
    (hhead : (head, code) = (Channel.cmeError, .cmeError) ∨
      (head, code) = (Channel.cmsError, .cmsError)) :
    ATStream.convertMap.lookup (head ++ rest) =
      if rest = [] then some code else none := by
  rcases hhead with hhead | hhead
  · cases hhead
    cases rest with
    | nil => rfl
    | cons c rest => rfl
  · cases hhead
    cases rest with
    | nil => rfl
    | cons c rest => rfl

/-- Behind `+CME ERROR:` and `+CMS ERROR:` everything is some status. -/
theorem parseState_cmx {head rest : List UInt8} {code : Result.Code}
    (hhead : (head, code) = (Channel.cmeError, .cmeError) ∨
      (head, code) = (Channel.cmsError, .cmsError)) {e : UInt32} :
    (ATStream.parseState (head ++ rest) e).1 ≠ .none := by
  have hcode : code = .cmeError ∨ code = .cmsError := by
    rcases hhead with h | h
    · cases h; exact .inl rfl
    · cases h; exact .inr rfl
  have hlen : head.length = Channel.cmeError.length := by
    rcases hhead with h | h
    · cases h; rfl
    · cases h; rfl
  have hne : code ≠ .none := by
    rcases hcode with rfl | rfl
    · exact Result.Code.noConfusion
    · exact Result.Code.noConfusion
  have htest : substr (head ++ rest) 0 (some Channel.cmeError.length) =
      head ++ [] := by
    rw [substr, List.drop_zero, Option.getD_some, ← hlen, List.take_left,
      List.append_nil]
  rw [ATStream.parseState, lookup_cmx hhead, htest]
  by_cases hrest : rest = []
  · simp [hrest, hcode]
  · simp only [hrest, hcode, @lookup_cmx head [] code hhead, if_true, if_false]
    split
    · exact Result.Code.noConfusion
    · split
      · exact Result.Code.noConfusion
      · exact hne

theorem Status.parseState_ne (s : Status) {e : UInt32} :
    (ATStream.parseState s.text e).1 ≠ .none := by
  cases s with
  | ok => exact fun h => by cases h
  | error => exact fun h => by cases h
  | cmeError n => exact parseState_cmx (.inl rfl)
  | cmsError n => exact parseState_cmx (.inr rfl)

theorem Response.segments_free (r : Response) : ∀ l ∈ r.segments, Free l := by
  intro l hl
  rw [Response.segments, List.mem_append] at hl
  rcases hl with hl | hl
  · exact r.free l hl
  · simp at hl
    rcases hl with rfl | rfl
    · exact free_nil
    · exact r.status.free

/-- Before its status every segment of a response is none. -/
theorem Response.noStatus_of_before (r : Response) {done : List (List UInt8)}
    {l : List UInt8} {todo : List (List UInt8)} (htodo : todo ≠ [])
    (hsplit : r.segments = done ++ l :: todo) :
    (ATStream.parseState l 0).1 = .none := by
  obtain ⟨front, last, rfl⟩ := List.eq_nil_or_concat todo |>.resolve_left htodo
  have hinit := congrArg List.dropLast hsplit
  rw [Response.segments, List.concat_eq_append, ← List.cons_append,
    ← List.append_assoc, List.dropLast_concat,
    show r.lines ++ [[], r.status.text] = (r.lines ++ [[]]) ++ [r.status.text] by
      simp, List.dropLast_concat] at hinit
  have hl : l ∈ r.lines ++ [[]] := by rw [hinit]; simp
  rcases List.mem_append.1 hl with hl | hl
  · exact r.noStatus l hl
  · rw [List.mem_singleton.1 hl]
    exact ATStream.parseState_nil

/-- A proper prefix of a line and its delimiter shows no delimiter. -/
theorem Free.of_unfinished {l r t : List UInt8} (hl : Free l)
    (hr : r ++ t = l ++ delimiter) (ht : t ≠ []) : Free r := by
  intro ⟨u, v, huv⟩
  have hlen := congrArg List.length hr
  have := List.length_pos_of_ne_nil ht
  have hocc : OccursAt delimiter (l ++ delimiter ++ []) u.length := by
    rw [List.append_nil, ← hr, ← huv]
    exact occursAt_joint.append t
  have hle := hl.le_of_occursAt hocc
  rw [← huv] at hlen
  simp [delimiter] at hlen
  omega

/-- The bytes that have arrived, as lines. -/
theorem Response.prefix_joined (resp : Response) {p t : List UInt8}
    (hcut : p ++ t = resp.bytes) :
    ∃ done todo r, resp.segments = done ++ todo ∧ p = joined done r ∧
      Free r ∧ (t ≠ [] → todo ≠ []) := by
  have hblocks : resp.bytes = (resp.segments.map (· ++ delimiter)).flatten :=
    List.append_nil _
  rw [hblocks] at hcut
  obtain ⟨ds, ts, r, hsplit, hp, hr⟩ := prefix_flatten_cases hcut
  obtain ⟨done, todo, hseg, rfl, rfl⟩ := List.map_eq_append_iff.1 hsplit
  refine ⟨done, todo, r, hseg, hp, ?_, fun ht htodo => ht ?_⟩
  · rcases hr with rfl | ⟨b, rest, t', htodo, ht', hb⟩
    · exact free_nil
    · obtain ⟨l, ls, rfl, hl, -⟩ := List.map_eq_cons_iff.1 htodo
      refine Free.of_unfinished (resp.segments_free l ?_) (hb.trans hl.symm) ht'
      rw [hseg]
      simp
  · rw [htodo] at hseg hr
    have hrnil : r = [] := by
      rcases hr with hr | ⟨b, rest, t', hnil, -⟩
      · exact hr
      · cases hnil
    rw [hp, hseg, hrnil] at hcut
    simpa using hcut

/-! ## What a write decides -/

namespace ATStream

/-- The stream that has gathered `p` and is not ready. -/
def waiting (b : Bool) (p : List UInt8) : ATStream :=
  { atBuffer := p, beginChecked := b }

/-- The stream that takes the status `rr` out of `p`. -/
def taken (b t : Bool) (p rr : List UInt8) : ATStream :=
  { waiting b p with
    atAtTheBegin := t
    errcode := (parseState rr 0).2
    result.code := (parseState rr 0).1 }

/-- The text at the end decides, or the one at the beginning did. -/
theorem parse_joined {b : Bool} {p : List UInt8} {done : List (List UInt8)}
    {r : List UInt8} (hp : p = joined done r) (hdone : ∀ l ∈ done, Free l)
    (hr : Free r) : ∃ b',
    parse (waiting b p) = (waiting b' p).settle (endText done r) ∨
    ∃ l rest, done = [] :: l :: rest ∧ (parseState l 0).1 ≠ .none ∧
      parse (waiting b p) = (true, taken b' true p l) := by
  have hend : ∀ b', (waiting b' p).parseLines =
      (waiting b' p).settle (endText done r) :=
    fun b' => checkATEnd_joined hp hdone hr
  rw [parse]
  split
  · next hguard =>
      have hpre : OccursAt delimiter p 0 :=
        List.isPrefixOf_iff_prefix.1 (Bool.and_eq_true_iff.1 hguard).2
      cases done with
      | nil => exact absurd (hp ▸ hpre).isInfix hr
      | cons d ls =>
          rw [hp, joined_cons] at hpre
          have hd : d = [] := List.length_eq_zero_iff.1
            (Nat.le_zero.1 ((hdone d List.mem_cons_self).le_of_occursAt hpre))
          subst hd
          rw [@checkATBegin_joined (waiting b p) ls r hp
            (fun l hl => hdone l (List.mem_cons_of_mem _ hl)) hr]
          cases ls with
          | nil => exact ⟨b, .inl (hend b)⟩
          | cons l rest =>
              by_cases hnone : (parseState l 0).1 = .none
              · simp only []
                rw [settle_none hnone]
                exact ⟨true, .inl (hend true)⟩
              · simp only []
                rw [settle_some hnone]
                exact ⟨true, .inr ⟨l, rest, rfl, hnone, rfl⟩⟩
  · exact ⟨b, .inl (hend b)⟩

theorem settle_taken {b : Bool} {p rr : List UInt8}
    (h : (parseState rr 0).1 ≠ .none) :
    (waiting b p).settle rr = (true, taken b false p rr) :=
  settle_some h

/-- A stream that finds no status has only gathered. -/
theorem parse_false {b : Bool} {p : List UInt8} {done : List (List UInt8)}
    {r : List UInt8} (hp : p = joined done r) (hdone : ∀ l ∈ done, Free l)
    (hr : Free r) (h : (parse (waiting b p)).1 = false) :
    ∃ b', parse (waiting b p) = (false, waiting b' p) := by
  obtain ⟨b', hend | ⟨l, rest, -, -, hbegin⟩⟩ := parse_joined hp hdone hr
  · refine ⟨b', ?_⟩
    by_cases hnone : (parseState (endText done r) 0).1 = .none
    · rw [hend, settle_none hnone]
    · rw [hend, settle_taken hnone] at h
      cases h
  · rw [hbegin] at h
    cases h

theorem parse_early {b : Bool} {p : List UInt8} (h : EarlyStatus p) :
    (parse (waiting b p)).1 = true := by
  obtain ⟨x, rest, hp, hx, hrest, hcode⟩ := h
  have hfree : Free x := by
    intro ⟨u, v, huv⟩
    have := congrArg List.length huv
    simp [delimiter] at this hx
    omega
  have hjoined : p = joined [x] rest := by rw [hp, joined_cons, joined_nil]
  obtain ⟨b', hend | ⟨l, ls, hnil, -, -⟩⟩ := @parse_joined b p [x] rest hjoined
    (fun l hl => List.mem_singleton.1 hl ▸ hfree) hrest
  · rw [hend, show endText [x] rest = rest from if_pos hx, settle_taken hcode]
  · cases hnil

/-- Before its end a response shows no status but an early one. -/
theorem parse_before {b : Bool} {resp : Response} {p t : List UInt8}
    (hcut : p ++ t = resp.bytes) (ht : t ≠ []) (hearly : ¬ EarlyStatus p) :
    (parse (waiting b p)).1 = false := by
  obtain ⟨done, todo, r, hseg, hp, hr, htodo⟩ := resp.prefix_joined hcut
  have hdone : ∀ l ∈ done, Free l :=
    fun l hl => resp.segments_free l (by rw [hseg]; exact List.mem_append_left _ hl)
  obtain ⟨b', hend | ⟨l, rest, hd, hcode, -⟩⟩ := @parse_joined b p done r hp hdone hr
  · have hnone : (parseState (endText done r) 0).1 = .none := by
      rcases List.eq_nil_or_concat done with rfl | ⟨init, l, rfl⟩
      · exact parseState_nil
      · rcases List.eq_nil_or_concat init with rfl | ⟨init, l', rfl⟩
        · -- one complete line: the text may be the incomplete one behind it
          by_contra hne
          by_cases hshort : l.length < delimiter.length
          · rw [show endText ([].concat l) r = r from if_pos hshort] at hne
            exact hearly ⟨l, r, by rw [hp]; simp [joined], hshort, hr, hne⟩
          · rw [show endText ([].concat l) r = [] from if_neg hshort] at hne
            exact hne parseState_nil
        · rw [show endText ((init.concat l').concat l) r = l by simp [endText]]
          exact @Response.noStatus_of_before resp (init.concat l') l todo
            (htodo ht) (by rw [hseg]; simp)
    rw [hend, settle_none hnone]
  · rw [hd] at hseg
    have htail : rest ++ todo ≠ [] :=
      fun h => htodo ht (List.append_eq_nil_iff.1 h).2
    exact absurd (@Response.noStatus_of_before resp [[]] l (rest ++ todo) htail
      (by rw [hseg]; rfl)) hcode

/-- The whole response shows its status, at its end or at its beginning. -/
theorem parse_whole {b : Bool} {resp : Response} : ∃ b' t,
    parse (waiting b resp.bytes) =
      (true, taken b' t resp.bytes resp.status.text) := by
  obtain ⟨b', hend | ⟨l, rest, hd, hcode, hbegin⟩⟩ :=
    @parse_joined b resp.bytes resp.segments [] rfl resp.segments_free free_nil
  · refine ⟨b', false, ?_⟩
    rw [hend, show endText resp.segments [] = resp.status.text by
      simp [endText, Response.segments], settle_taken resp.status.parseState_ne]
  · refine ⟨b', true, ?_⟩
    have hl : l = resp.status.text := by
      by_contra hne
      have hrest : rest ≠ [] := by
        rintro rfl
        have hlast := congrArg List.getLast? hd
        simp [Response.segments] at hlast
        exact hne hlast.symm
      exact hcode (@Response.noStatus_of_before resp [[]] l rest hrest hd)
    rw [hbegin, hl]

/-! ## The run -/

theorem write_ready {ec : EnumCast} {st : ATStream} {c : List UInt8}
    (h : st.isATReady = true) : (st.write ec c).2 = st := by
  rw [write, if_pos h]

theorem writeAll_concat {ec : EnumCast} {st : ATStream} {cs : List (List UInt8)}
    {c : List UInt8} :
    writeAll ec st (cs ++ [c]) = ((writeAll ec st cs).write ec c).2 := by
  rw [writeAll, List.foldl_append]
  rfl

theorem checkError_isATReady {ec : EnumCast} {st : ATStream} :
    (checkError ec st).isATReady = st.isATReady := by
  rw [checkError]
  split
  · rfl
  · split
    · rfl
    · rfl

theorem checkError_rxCount {ec : EnumCast} {st : ATStream} :
    (checkError ec st).rxCount = st.rxCount := by
  rw [checkError]
  split
  · rfl
  · split
    · rfl
    · rfl

/-- The result depends on what was found, not on where. -/
theorem checkError_result {ec : EnumCast} {st st' : ATStream}
    (hresult : st.result = st'.result) (herr : st.errcode = st'.errcode) :
    (checkError ec st).result = (checkError ec st').result := by
  rw [checkError, checkError, hresult, herr]
  split
  · rfl
  · split
    · rfl
    · exact hresult

/-- A write on a waiting stream, when its bytes show no status. -/
theorem write_waiting_false {ec : EnumCast} {b b' : Bool} {p c : List UInt8}
    (h : parse (waiting b (p ++ c)) = (false, waiting b' (p ++ c))) :
    ((waiting b p).write ec c).2 = waiting b' (p ++ c) := by
  rw [write, if_neg (by simp [waiting])]
  rw [show { waiting b p with atBuffer := (waiting b p).atBuffer ++ c } =
    waiting b (p ++ c) from rfl, h]

theorem write_waiting_isATReady {ec : EnumCast} {b : Bool} {p c : List UInt8}
    (h : (parse (waiting b (p ++ c))).1 = true) :
    ((waiting b p).write ec c).2.isATReady = true := by
  rw [write, if_neg (by simp [waiting])]
  rw [show { waiting b p with atBuffer := (waiting b p).atBuffer ++ c } =
    waiting b (p ++ c) from rfl]
  rcases hp : parse (waiting b (p ++ c)) with ⟨_ | _, st⟩
  · rw [hp] at h
    cases h
  · simp only []
    split
    · exact checkError_isATReady
    · exact checkError_isATReady

/-- What a complete response leaves as the result. -/
def Response.result (ec : EnumCast) (resp : Response) : Result :=
  (checkError ec { taken false false resp.bytes resp.status.text with
    result.response := Utils.split resp.bytes delimiter true }).result

theorem write_waiting_whole {ec : EnumCast} {resp : Response} {b : Bool}
    {p c : List UInt8} (hcut : p ++ c = resp.bytes) :
    ((waiting b p).write ec c).2.isATReady = true ∧
      ((waiting b p).write ec c).2.result = Response.result ec resp := by
  obtain ⟨b', t, hparse⟩ := @parse_whole b resp
  refine ⟨write_waiting_isATReady (by rw [hcut, hparse]), ?_⟩
  rw [write, if_neg (by simp [waiting])]
  rw [show { waiting b p with atBuffer := (waiting b p).atBuffer ++ c } =
    waiting b (p ++ c) from rfl, hcut, hparse]
  simp only [checkError_rxCount]
  rw [if_neg (fun h => h.1 rfl)]
  exact checkError_result rfl rfl

/-- Up to the end of a response the stream is ready or has only gathered. -/
theorem writeAll_waiting {ec : EnumCast} {resp : Response} :
    ∀ {pre : List (List UInt8)} {t : List UInt8},
    pre.flatten ++ t = resp.bytes → (writeAll ec {} pre).isATReady = false →
    ∃ b, writeAll ec {} pre = waiting b pre.flatten := by
  intro pre
  induction pre using List.reverseRecOn with
  | nil => intro t _ _; exact ⟨false, rfl⟩
  | append_singleton pre c ih =>
      intro t hcut hready
      rw [List.flatten_append, List.flatten_singleton] at hcut ⊢
      rw [writeAll_concat] at hready ⊢
      by_cases hbefore : (writeAll ec {} pre).isATReady = true
      · rw [write_ready hbefore, hbefore] at hready
        cases hready
      · obtain ⟨b, hst⟩ := ih (t := c ++ t) (by rw [← hcut, List.append_assoc])
          (Bool.not_eq_true _ ▸ hbefore)
        rw [hst] at hready ⊢
        obtain ⟨done, todo, r, hseg, hp, hr, -⟩ := resp.prefix_joined hcut
        have hdone : ∀ l ∈ done, Free l := fun l hl =>
          resp.segments_free l (by rw [hseg]; exact List.mem_append_left _ hl)
        have hfalse : (parse (waiting b (pre.flatten ++ c))).1 = false := by
          by_contra h
          rw [write_waiting_isATReady (Bool.not_eq_false _ ▸ h)] at hready
          cases hready
        obtain ⟨b', hparse⟩ := parse_false hp hdone hr hfalse
        exact ⟨b', write_waiting_false hparse⟩

theorem writeAll_early {ec : EnumCast} {resp : Response}
    {pre : List (List UInt8)} {t : List UInt8}
    (hcut : pre.flatten ++ t = resp.bytes) (hearly : EarlyStatus pre.flatten) :
    (writeAll ec {} pre).isATReady = true := by
  rcases List.eq_nil_or_concat pre with rfl | ⟨pre, c, rfl⟩
  · obtain ⟨x, rest, hnil, -⟩ := hearly
    exact absurd hnil.symm (by simp [delimiter])
  · rw [List.concat_eq_append, List.flatten_append, List.flatten_singleton]
      at hcut hearly
    rw [List.concat_eq_append, writeAll_concat]
    by_cases hbefore : (writeAll ec {} pre).isATReady = true
    · rw [write_ready hbefore, hbefore]
    · obtain ⟨b, hst⟩ := @writeAll_waiting ec resp pre (c ++ t)
        (by rw [← hcut, List.append_assoc]) (Bool.not_eq_true _ ▸ hbefore)
      rw [hst]
      exact write_waiting_isATReady (parse_early hearly)

theorem writeAll_before {ec : EnumCast} {resp : Response} :
    ∀ {pre : List (List UInt8)} {t : List UInt8},
    pre.flatten ++ t = resp.bytes → t ≠ [] →
    (∀ ds es, pre = ds ++ es → ¬ EarlyStatus ds.flatten) →
    (writeAll ec {} pre).isATReady = false := by
  intro pre
  induction pre using List.reverseRecOn with
  | nil => intro t _ _ _; rfl
  | append_singleton pre c ih =>
      intro t hcut ht hearly
      have hhere := hearly (pre ++ [c]) [] (List.append_nil _).symm
      rw [List.flatten_append, List.flatten_singleton] at hcut hhere
      have hcut' : pre.flatten ++ (c ++ t) = resp.bytes := by
        rw [← hcut, List.append_assoc]
      have hbefore := ih hcut' (fun h => ht (List.append_eq_nil_iff.1 h).2)
        fun ds es hpre => hearly ds (es ++ [c]) (by rw [hpre]; simp)
      obtain ⟨b, hst⟩ := writeAll_waiting hcut' hbefore
      obtain ⟨done, todo, r, hseg, hp, hr, -⟩ := resp.prefix_joined hcut
      have hdone : ∀ l ∈ done, Free l := fun l hl =>
        resp.segments_free l (by rw [hseg]; exact List.mem_append_left _ hl)
      obtain ⟨b', hparse⟩ := @parse_false b _ done r hp hdone hr
        (parse_before hcut ht hhere)
      rw [writeAll_concat, hst, write_waiting_false hparse]
      rfl

end ATStream

open ATStream

/-- The stream is ready once all of the response has arrived, not before, and
then its result is the one of a single write. -/
def Assembles (ec : EnumCast) (resp : Response) (cs : List (List UInt8)) : Prop :=
  (∀ k ≤ cs.length,
    ((writeAll ec {} (cs.take k)).isATReady = true ↔ k = cs.length)) ∧
  (writeAll ec {} cs).result = (writeAll ec {} [resp.bytes]).result

/-- The last chunk of a response. -/
theorem writeAll_whole {ec : EnumCast} {resp : Response}
    {cs : List (List UInt8)} (hne : ∀ c ∈ cs, c ≠ [])
    (hcut : cs.flatten = resp.bytes)
    (hearly : ∀ pre post, cs = pre ++ post → post ≠ [] →
      ¬ EarlyStatus pre.flatten) :
    (writeAll ec {} cs).isATReady = true ∧
      (writeAll ec {} cs).result = Response.result ec resp := by
  rcases List.eq_nil_or_concat cs with rfl | ⟨pre, c, rfl⟩
  · have hlen := congrArg List.length hcut
    simp [Response.bytes, Response.segments, joined, delimiter] at hlen
  · rw [List.concat_eq_append] at hne hcut hearly ⊢
    rw [List.flatten_append, List.flatten_singleton] at hcut
    have hbefore := @writeAll_before ec resp pre c hcut (hne c (by simp))
      fun ds es hpre => hearly ds (es ++ [c]) (by rw [hpre]; simp) (by simp)
    obtain ⟨b, hst⟩ := writeAll_waiting hcut hbefore
    rw [writeAll_concat, hst]
    exact write_waiting_whole hcut

theorem Response.bytes_ne_nil (resp : Response) : resp.bytes ≠ [] := by
  simp [Response.bytes, Response.segments, joined, delimiter]

theorem not_earlyStatus_nil : ¬ EarlyStatus [] := by
  rintro ⟨x, rest, hnil, -⟩
  exact absurd hnil.symm (by simp [delimiter])

/-- Writing a response to a fresh stream, cut anyhow into non-empty chunks,
assembles it if and only if no cut shows an early status. -/
theorem writeAll_assembles_iff {ec : EnumCast} {resp : Response}
    {cs : List (List UInt8)} (hne : ∀ c ∈ cs, c ≠ [])
    (hcut : cs.flatten = resp.bytes) :
    Assembles ec resp cs ↔
      ∀ k < cs.length, ¬ EarlyStatus (cs.take k).flatten := by
  have hsplit : ∀ k, (cs.take k).flatten ++ (cs.drop k).flatten = resp.bytes := by
    intro k
    rw [← List.flatten_append, List.take_append_drop, hcut]
  refine ⟨fun ⟨hready, _⟩ k hk hearly => ?_,
    fun hearly => ?_⟩
  · have := (hready k (by omega)).1 (writeAll_early (hsplit k) hearly)
    omega
  · have hcuts : ∀ pre post, cs = pre ++ post → post ≠ [] →
        ¬ EarlyStatus pre.flatten := by
      intro pre post hcs hpost
      have hlen := List.length_pos_of_ne_nil hpost
      have h := hearly pre.length (by rw [hcs, List.length_append]; omega)
      rwa [hcs, List.take_left] at h
    refine ⟨fun k hk => ⟨fun hready => ?_, fun hk => ?_⟩, ?_⟩
    · by_contra hlt
      obtain ⟨c, rest, hrest⟩ := List.exists_cons_of_ne_nil
        (show cs.drop k ≠ [] from fun h => by
          rw [List.drop_eq_nil_iff] at h
          omega)
      have hc := hne c (List.mem_of_mem_drop (by rw [hrest]; simp))
      rw [@writeAll_before ec resp (cs.take k) (cs.drop k).flatten (hsplit k)
        (fun h => hc (by rw [hrest] at h; exact (List.append_eq_nil_iff.1 h).1))
        fun ds es htake => hcuts ds (es ++ cs.drop k)
          (by rw [← List.append_assoc, ← htake, List.take_append_drop])
          (by rw [hrest]; simp)] at hready
      cases hready
    · rw [hk, List.take_length]
      exact (writeAll_whole hne hcut hcuts).1
    · rw [(writeAll_whole hne hcut hcuts).2]
      refine ((@writeAll_whole ec resp [resp.bytes] ?_ (by simp) ?_).2).symm
      · intro c hc
        rw [List.mem_singleton.1 hc]
        exact resp.bytes_ne_nil
      · intro pre post hone hpost
        cases pre with
        | nil => exact not_earlyStatus_nil
        | cons c pre =>
            have htail := (List.cons.inj hone).2
            exact absurd (List.append_eq_nil_iff.1 htail.symm).2 hpost

instance : DecidablePred Free := fun s =>
  inferInstanceAs (Decidable (¬ delimiter <:+: s))

theorem earlyStatus_iff {p : List UInt8} :
    EarlyStatus p ↔ ∃ k < delimiter.length, OccursAt delimiter p k ∧
      Free (p.drop (k + delimiter.length)) ∧
      (ATStream.parseState (p.drop (k + delimiter.length)) 0).1 ≠ .none := by
  refine ⟨fun ⟨x, rest, hp, hx, hrest, hcode⟩ => ⟨x.length, hx, ?_⟩,
    fun ⟨k, hk, hocc, hrest, hcode⟩ => ⟨p.take k, _, ?_, ?_, hrest, hcode⟩⟩
  · have hdrop : p.drop (x.length + delimiter.length) = rest := by
      rw [hp, ← List.length_append, List.drop_left]
    exact ⟨hp ▸ occursAt_joint, hdrop.symm ▸ hrest, hdrop.symm ▸ hcode⟩
  · obtain ⟨rest, hrest⟩ := hocc
    rw [← List.drop_drop, ← hrest, List.drop_left, List.append_assoc, hrest,
      List.take_append_drop]
  · exact Nat.lt_of_le_of_lt (List.length_take_le k p) hk

instance : DecidablePred EarlyStatus := fun p =>
  decidable_of_iff _ (earlyStatus_iff (p := p)).symm

/-- `enum_cast` by the enumerators of the two declarations. -/
def declaredCast : EnumCast where
  equipment code := if code ∈ ErrorCode.equipmentCodes then some code else none
  network code := if code ∈ ErrorCode.networkCodes then some code else none

/-- `+CSQ: 9,0` between delimiters, then `OK`. -/
def signalQuality : Response where
  lines := [[], [0x2B, 0x43, 0x53, 0x51, 0x3A, 0x20, 0x39, 0x2C, 0x30]]
  free := by unfold Free; decide
  noStatus := by decide
  status := .ok

/-- Both cuts are inside a delimiter. -/
def signalQualityChunks : List (List UInt8) :=
  [[0x0D, 0x0A, 0x2B, 0x43, 0x53, 0x51, 0x3A, 0x20, 0x39, 0x2C, 0x30, 0x0D],
    [0x0A, 0x0D, 0x0A, 0x4F, 0x4B, 0x0D], [0x0A]]

theorem writeAll_assembles_signalQuality :
    Assembles declaredCast signalQuality signalQualityChunks := by
  exact (writeAll_assembles_iff (by decide) (by decide)).2 (by decide)

/-- `+CME ERROR: 13`. -/
def simFailure : Response where
  lines := []
  free := by decide
  noStatus := by decide
  status := .cmeError ⟨[0x31, 0x33], by decide,
    List.forall_mem_cons.2 ⟨by decide, List.forall_mem_singleton.2 (by decide)⟩⟩

/-- The error 13 cut between its digits: the stream is ready with the error 1. -/
theorem writeAll_cut_error :
    ¬ ∀ (ec : EnumCast) (resp : Response) (cs : List (List UInt8)),
      (∀ c ∈ cs, c ≠ []) → cs.flatten = resp.bytes → Assembles ec resp cs := by
  intro h
  have hresult := (h declaredCast simFailure
    [[0x0D, 0x0A, 0x2B, 0x43, 0x4D, 0x45, 0x20, 0x45, 0x52, 0x52, 0x4F, 0x52,
      0x3A, 0x20, 0x31], [0x33, 0x0D, 0x0A]] (by decide) (by decide)).2
  exact absurd hresult (by decide)

end MuditaOS.Cellular

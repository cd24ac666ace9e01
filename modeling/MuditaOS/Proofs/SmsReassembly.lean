import MuditaOS.Proofs.SmsAnswer

/-!
# Putting the parts of a message together

The parser files a part under its reference alone and takes a message for
complete when the number of parts under the reference is the total of the part at
hand. Histories are lists of deliveries, the newest first. The stretch of a
reference is what arrived under it since the last message that became complete
there; it is what the table holds.

As long as a stretch is of one message, and a message that is complete does not
arrive as a whole again, the table fills up exactly when the last missing part
arrives. Two senders that use one reference at a time break the first, a
repetition after the end may break the second.
-/

namespace MuditaOS.Sms

open MuditaOS.Lib MuditaOS.Unicode

/-! ## Deliveries -/

/-- A concatenated message. -/
structure Concatenated where
  sender : List Char
  reference : Nat
  parts : List (List UInt8)
  inRange : reference < 2 ^ 16
  notEmpty : parts ≠ []
  numbered : parts.length ≤ 255
  deriving DecidableEq

inductive Delivery where
  | single (e : Envelope) (sender : List Char) (text : List UInt8)
  | part (e : Envelope) (m : Concatenated) (i : Fin m.parts.length)

namespace Delivery

/-- The answer is given to the parser. -/
def give (addr : Nat) (s : SMSParser) : Delivery → Option (Bool × SMSParser)
  | single e sender text => s.parse addr (singleLine e sender) text
  | part e m i =>
      s.parse addr (partLine e m.sender m.reference (i + 1) m.parts.length)
        m.parts[i]

def isOf (m : Concatenated) : Delivery → Bool
  | single .. => false
  | part _ m' _ => m' = m

/-- The part with the number `i + 1` of the message. -/
def isPart (m : Concatenated) (i : Nat) : Delivery → Bool
  | single .. => false
  | part _ m' j => m' = m ∧ j.val = i

def isUnder (r : Nat) : Delivery → Bool
  | single .. => false
  | part _ m _ => m.reference = r

end Delivery

/-! ## What a history says of a message -/

def Arrived (past : List Delivery) (m : Concatenated) (i : Nat) : Prop :=
  ∃ d ∈ past, d.isPart m i

instance {past : List Delivery} {m : Concatenated} {i : Nat} :
    Decidable (Arrived past m i) :=
  inferInstanceAs (Decidable (∃ d ∈ past, d.isPart m i))

def Complete (past : List Delivery) (m : Concatenated) : Prop :=
  ∀ i < m.parts.length, Arrived past m i

instance {past : List Delivery} {m : Concatenated} : Decidable (Complete past m) :=
  inferInstanceAs (Decidable (∀ i < m.parts.length, Arrived past m i))

/-- Of the message only this part has not arrived. -/
def LastMissing (past : List Delivery) (m : Concatenated) (i : Nat) : Prop :=
  ¬ Arrived past m i ∧ ∀ j < m.parts.length, j ≠ i → Arrived past m j

instance {past : List Delivery} {m : Concatenated} {i : Nat} :
    Decidable (LastMissing past m i) :=
  inferInstanceAs (Decidable (_ ∧ ∀ j < m.parts.length, j ≠ i → Arrived past m j))

def Delivery.Completes (past : List Delivery) : Delivery → Prop
  | single .. => False
  | part _ m i => LastMissing past m i

instance {past : List Delivery} : ∀ {d : Delivery}, Decidable (d.Completes past)
  | .single .. => inferInstanceAs (Decidable False)
  | .part _ m i => inferInstanceAs (Decidable (LastMissing past m i))

/-- The deliveries under the reference since the last one that brought the last
missing part of its message. -/
def stretch (r : Nat) : List Delivery → List Delivery
  | [] => []
  | d :: past =>
      if d.isUnder r then
        if d.Completes past then [] else d :: stretch r past
      else stretch r past

/-- A part arrives on a stretch of its own message, and does not make a complete
message arrive as a whole again. -/
def Delivery.Undisturbed (r : Nat) (past : List Delivery) : Delivery → Prop
  | single .. => True
  | part _ m i => m.reference = r →
      (∀ d ∈ stretch r past, d.isOf m) ∧
        (Complete past m →
          ∃ j < m.parts.length, j ≠ i.val ∧ ¬ Arrived (stretch r past) m j)

instance {r : Nat} {past : List Delivery} : ∀ {d : Delivery},
    Decidable (d.Undisturbed r past)
  | .single .. => inferInstanceAs (Decidable True)
  | .part _ m i => inferInstanceAs (Decidable (m.reference = r →
      (∀ d ∈ stretch r past, d.isOf m) ∧
        (Complete past m →
          ∃ j < m.parts.length, j ≠ i.val ∧ ¬ Arrived (stretch r past) m j)))

/-- Every part under the reference does. -/
def Clean (r : Nat) : List Delivery → Prop
  | [] => True
  | d :: past => d.Undisturbed r past ∧ Clean r past

instance decidableClean {r : Nat} : ∀ {history : List Delivery},
    Decidable (Clean r history)
  | [] => inferInstanceAs (Decidable True)
  | _ :: _ => @instDecidableAnd _ _ _ decidableClean

/-! ## The parser after a history -/

/-- `alloc n` is the address of the number of the `n`-th answer. -/
def after (alloc : Nat → Nat) : List Delivery → Option SMSParser
  | [] => some (SMSParser.initial (alloc 0))
  | d :: past =>
      (after alloc past).bind fun s =>
        (d.give (alloc (past.length + 1)) s).map Prod.snd

def outcome (alloc : Nat → Nat) (past : List Delivery) (d : Delivery) :
    Option (Bool × SMSParser) :=
  (after alloc past).bind (d.give (alloc (past.length + 1)))

/-- `parse` returns `true` for exactly one part of the message, its last missing
one, and then the text and the number are those of the message. -/
def ReassembledOnce (alloc : Nat → Nat) (history : List Delivery) (m : Concatenated) :
    Prop :=
  ∃ (past later : List Delivery) (e : Envelope) (i : Fin m.parts.length)
    (s : SMSParser), history = later ++ .part e m i :: past ∧
    LastMissing past m i ∧ outcome alloc past (.part e m i) = some (true, s) ∧
    s.getMessage = m.parts.flatten ∧ NumberIs s m.sender ∧
    ∀ (past' later' : List Delivery) (e' : Envelope) (i' : Fin m.parts.length)
      (s' : SMSParser), history = later' ++ .part e' m i' :: past' →
      outcome alloc past' (.part e' m i') = some (true, s') → past' = past

/-! ## Histories -/

theorem not_arrived_nil {m : Concatenated} {i : Nat} : ¬ Arrived [] m i := by
  intro ⟨d, hd, _⟩
  exact List.not_mem_nil hd

theorem arrived_cons {d : Delivery} {past : List Delivery} {m : Concatenated} {i : Nat} :
    Arrived (d :: past) m i ↔ d.isPart m i = true ∨ Arrived past m i :=
  List.exists_mem_cons_iff ..

theorem Arrived.mono {past past' : List Delivery} {m : Concatenated} {i : Nat}
    (hsub : past ⊆ past') (h : Arrived past m i) : Arrived past' m i := by
  obtain ⟨d, hd, hpart⟩ := h
  exact ⟨d, hsub hd, hpart⟩

theorem stretch_subset {r : Nat} : ∀ {past : List Delivery}, stretch r past ⊆ past := by
  intro past
  induction past with
  | nil => exact List.Subset.refl []
  | cons d past ih =>
      rw [stretch]
      split
      · split
        · exact List.nil_subset _
        · exact List.cons_subset_cons d ih
      · exact List.subset_cons_of_subset d ih

theorem isPart_iff {d : Delivery} {m : Concatenated} {i : Nat} :
    d.isPart m i = true ↔ ∃ e j, d = .part e m j ∧ j.val = i := by
  cases d with
  | single e sender text => simp [Delivery.isPart]
  | part e m' j =>
      simp only [Delivery.isPart, decide_eq_true_eq]
      refine ⟨?_, ?_⟩
      · rintro ⟨rfl, rfl⟩
        exact ⟨e, j, rfl, rfl⟩
      · rintro ⟨e', j', heq, rfl⟩
        cases heq
        exact ⟨rfl, rfl⟩

/-- Once all parts have arrived, one of them was the last missing. -/
theorem exists_lastMissing {m : Concatenated} : ∀ {history : List Delivery},
    Complete history m → ∃ (past later : List Delivery) (e : Envelope)
      (i : Fin m.parts.length),
      history = later ++ .part e m i :: past ∧ LastMissing past m i := by
  intro history
  induction history with
  | nil =>
      intro h
      exact absurd (h 0 (List.length_pos_of_ne_nil m.notEmpty)) not_arrived_nil
  | cons d past ih =>
      intro h
      by_cases hpast : Complete past m
      · obtain ⟨past', later, e, i, hsplit, hlast⟩ := ih hpast
        exact ⟨past', d :: later, e, i, by rw [hsplit]; rfl, hlast⟩
      · obtain ⟨i, hi, hmissing⟩ : ∃ i < m.parts.length, ¬ Arrived past m i := by
          by_contra hnone
          exact hpast fun i hi => by_contra fun hm => hnone ⟨i, hi, hm⟩
        have hd := (arrived_cons.1 (h i hi)).resolve_right hmissing
        obtain ⟨e, j, rfl, rfl⟩ := isPart_iff.1 hd
        refine ⟨past, [], e, j, rfl, hmissing, fun k hk hne => ?_⟩
        refine (arrived_cons.1 (h k hk)).resolve_left fun hpart => ?_
        obtain ⟨e', j', heq, hval⟩ := isPart_iff.1 hpart
        cases heq
        exact hne hval.symm

/-- A message has one last missing part. -/
theorem lastMissing_unique {m : Concatenated} {history past past' later later' : List Delivery}
    {e e' : Envelope} {i i' : Fin m.parts.length}
    (h : history = later ++ .part e m i :: past)
    (h' : history = later' ++ .part e' m i' :: past')
    (hlast : LastMissing past m i) (hlast' : LastMissing past' m i') :
    ¬ past'.length < past.length := by
  intro hlt
  have hsuffix : Delivery.part e' m i' :: past' <:+ past := by
    refine List.suffix_of_suffix_length_le ⟨later', h'.symm⟩
      (⟨later ++ [.part e m i], ?_⟩ : past <:+ history) hlt
    rw [h, List.append_assoc]
    rfl
  refine hlast.1 (Arrived.mono hsuffix.subset ?_)
  by_cases heq : i.val = i'.val
  · exact ⟨_, List.mem_cons_self, isPart_iff.2 ⟨e', i', rfl, heq.symm⟩⟩
  · exact arrived_cons.2 (.inr (hlast'.2 i i.isLt heq))

theorem clean_suffix {r : Nat} : ∀ {later past : List Delivery},
    Clean r (later ++ past) → Clean r past := by
  intro later
  induction later with
  | nil => exact fun h => h
  | cons d later ih => exact fun h => ih h.2

/-! ## What the table holds -/

/-- Under the reference stands the stretch, and nothing of a message that is not
complete is missing from it. -/
structure Tracks (r : Nat) (past : List Delivery) (s : SMSParser) : Prop where
  stored : ∀ k v, s.concatenatedMessage r k = some v →
    ∃ (e : Envelope) (m : Concatenated) (j : Fin m.parts.length),
      .part e m j ∈ stretch r past ∧ k = j.val + 1 ∧ v = m.parts[j]
  kept : ∀ m j, Arrived (stretch r past) m j →
    s.concatenatedMessage r (j + 1) ≠ none
  whole : ∀ m j, m.reference = r → Arrived past m j →
    Arrived (stretch r past) m j ∨ Complete past m

theorem tracks_initial {r addr : Nat} : Tracks r [] (SMSParser.initial addr) := by
  refine ⟨fun k v h => ?_, fun m j h => ?_, fun m j _ h => ?_⟩
  · exact absurd h (Option.some_ne_none v).symm
  · exact absurd h not_arrived_nil
  · exact absurd h not_arrived_nil

section Step

variable {r addr : Nat} {past : List Delivery} {s s' : SMSParser} {m : Concatenated}

theorem isPart_of_under {d : Delivery} {j : Nat} (hr : m.reference = r)
    (hd : d.isUnder r = false) : d.isPart m j = false := by
  cases d with
  | single e sender text => rfl
  | part e m' i =>
      refine decide_eq_false fun h => ?_
      rw [Delivery.isUnder, h.1, decide_eq_false_iff_not] at hd
      exact hd hr

/-- What arrives elsewhere changes nothing under the reference. -/
theorem Tracks.frame {d : Delivery} (h : Tracks r past s) (hd : d.isUnder r = false)
    (htable : s'.concatenatedMessage r = s.concatenatedMessage r) :
    Tracks r (d :: past) s' := by
  have hstretch : stretch r (d :: past) = stretch r past := by
    rw [stretch, if_neg (by rw [hd]; exact Bool.false_ne_true)]
  refine ⟨?_, ?_, ?_⟩
  · rw [hstretch, htable]
    exact h.stored
  · rw [hstretch, htable]
    exact h.kept
  · intro m j hr harrived
    have hold : Arrived past m j := (arrived_cons.1 harrived).resolve_left (by
      rw [isPart_of_under hr hd]
      exact Bool.false_ne_true)
    rw [hstretch]
    refine (h.whole m j hr hold).imp_right fun hcomplete i hi => ?_
    exact (hcomplete i hi).mono (List.subset_cons_self d past)

theorem wrap {n w : Nat} (h : n < 2 ^ w) : ((n : Int) % 2 ^ w).toNat = n := by
  rw [Int.emod_eq_of_lt (Int.natCast_nonneg n) (by exact_mod_cast h), Int.toNat_natCast]

/-- The numbers of a part are in the range of their types. -/
theorem parsePart_eq {i : Fin m.parts.length} {text : List UInt8}
    {t : Nat → Option (List UInt8)}
    (ht : t = Function.update (s.concatenatedMessage m.reference) (i.val + 1) (some text)) :
    s.parsePart m.reference ((i.val + 1 : Nat) : Int) (m.parts.length : Nat) text =
      if (entries (2 ^ 8) t).length = m.parts.length then
        (true,
          { s with
            message := (entries (2 ^ 8) t).flatten
            concatenatedMessage :=
              Function.update s.concatenatedMessage m.reference fun _ => none })
      else
        (false,
          { s with
            concatenatedMessage :=
              Function.update s.concatenatedMessage m.reference t }) := by
  have hnumbered := m.numbered
  have hi := i.isLt
  have hcurrent : ((((i.val + 1 : Nat) : Int)) % 2 ^ 8).toNat = i.val + 1 :=
    wrap (by omega)
  have htotal : ((m.parts.length : Int) % 2 ^ 32).toNat = m.parts.length :=
    wrap (by omega)
  rw [SMSParser.parsePart]
  simp only [wrap m.inRange, hcurrent, htotal, ← ht]

/-- Under a stretch of one message the table is part of it. -/
theorem Tracks.partOf (h : Tracks r past s) (hown : ∀ d ∈ stretch r past, d.isOf m)
    (i : Fin m.parts.length) :
    PartOf (Function.update (s.concatenatedMessage r) (i.val + 1) (some m.parts[i]))
      m.parts := by
  intro k v hv
  by_cases hk : k = i.val + 1
  · subst hk
    rw [Function.update_self] at hv
    refine ⟨Nat.succ_pos _, ?_⟩
    rw [← hv, Nat.add_sub_cancel]
    exact List.getElem?_eq_getElem i.isLt
  · rw [Function.update_of_ne hk] at hv
    obtain ⟨e, m', j, hmem, rfl, rfl⟩ := h.stored k v hv
    have hm : m' = m := of_decide_eq_true (hown _ hmem)
    subst hm
    exact ⟨Nat.succ_pos _, List.getElem?_eq_getElem j.isLt⟩

/-- The part at hand fills the table when the others are in the stretch. -/
theorem Tracks.full_iff_stretch (h : Tracks r past s)
    (hown : ∀ d ∈ stretch r past, d.isOf m) (i : Fin m.parts.length) :
    (entries (2 ^ 8) (Function.update (s.concatenatedMessage r) (i.val + 1)
      (some m.parts[i]))).length = m.parts.length ↔
      ∀ j < m.parts.length, j ≠ i.val → Arrived (stretch r past) m j := by
  have hnumbered := m.numbered
  rw [(h.partOf hown i).length_entries_iff (by omega)]
  refine ⟨fun hall j hj hne => ?_, fun hothers j hj => ?_⟩
  · have hthere := hall j hj
    rw [Function.update_of_ne (by omega)] at hthere
    obtain ⟨v, hv⟩ := Option.ne_none_iff_exists'.1 hthere
    obtain ⟨e, m', j', hmem, hval, _⟩ := h.stored _ v hv
    have hm : m' = m := of_decide_eq_true (hown _ hmem)
    subst hm
    exact ⟨_, hmem, isPart_iff.2 ⟨e, j', rfl, (Nat.succ.inj hval).symm⟩⟩
  · by_cases hji : j = i.val
    · rw [hji, Function.update_self]
      exact Option.some_ne_none _
    · rw [Function.update_of_ne (by omega)]
      exact h.kept m j (hothers j hj hji)

/-- The table is full exactly when the last missing part arrives. -/
theorem Tracks.full_iff (h : Tracks r past s) (hr : m.reference = r)
    (hown : ∀ d ∈ stretch r past, d.isOf m) (i : Fin m.parts.length)
    (hagain : Complete past m →
      ∃ j < m.parts.length, j ≠ i.val ∧ ¬ Arrived (stretch r past) m j) :
    (entries (2 ^ 8) (Function.update (s.concatenatedMessage r) (i.val + 1)
      (some m.parts[i]))).length = m.parts.length ↔ LastMissing past m i := by
  rw [h.full_iff_stretch hown i]
  refine ⟨fun hothers => ?_, fun hlast j hj hji => ?_⟩
  · refine ⟨fun hi => ?_, fun j hj hne => (hothers j hj hne).mono stretch_subset⟩
    -- the message would arrive as a whole again
    obtain ⟨j, hj, hne, hmissing⟩ := hagain fun j hj => by
      by_cases hji : j = i.val
      · rw [hji]
        exact hi
      · exact (hothers j hj hji).mono stretch_subset
    exact hmissing (hothers j hj hne)
  · refine (h.whole m j hr (hlast.2 j hj hji)).resolve_right ?_
    exact fun hcomplete => hlast.1 (hcomplete i i.isLt)

/-- Whatever `parsePart` decides, only its own reference is touched. -/
theorem parsePart_frame {smsId : Nat} {current total : Int} {text : List UInt8}
    (hsmsId : smsId < 2 ^ 16) (hr : smsId ≠ r) :
    (s.parsePart smsId current total text).2.concatenatedMessage r =
      s.concatenatedMessage r := by
  rw [SMSParser.parsePart]
  simp only [wrap hsmsId]
  split
  · exact Function.update_of_ne hr.symm _ _
  · exact Function.update_of_ne hr.symm _ _

/-- The last missing part empties the table; the stretch was of its message,
which is complete now. -/
theorem Tracks.clear {e : Envelope} {i : Fin m.parts.length} (h : Tracks r past s)
    (hr : m.reference = r) (hown : ∀ d ∈ stretch r past, d.isOf m)
    (hlast : LastMissing past m i)
    (htable : s'.concatenatedMessage r = fun _ => none) :
    Tracks r (.part e m i :: past) s' := by
  have hunder : (Delivery.part e m i).isUnder r = true := decide_eq_true hr
  have hcompletes : (Delivery.part e m i).Completes past := hlast
  have hstretch : stretch r (.part e m i :: past) = [] := by
    rw [stretch, if_pos hunder, if_pos hcompletes]
  have hcomplete : Complete (.part e m i :: past) m := fun k hk => by
    by_cases hki : k = i.val
    · exact arrived_cons.2 (.inl (isPart_iff.2 ⟨e, i, rfl, hki.symm⟩))
    · exact arrived_cons.2 (.inr (hlast.2 k hk hki))
  refine ⟨fun k v hv => ?_, fun m' j harrived => ?_, fun m' j hr' harrived => .inr ?_⟩
  · rw [htable] at hv
    exact absurd hv (Option.some_ne_none v).symm
  · rw [hstretch] at harrived
    exact absurd harrived not_arrived_nil
  · rcases arrived_cons.1 harrived with hnew | hold
    · obtain ⟨e', j', heq, _⟩ := isPart_iff.1 hnew
      cases heq
      exact hcomplete
    · rcases h.whole m' j hr' hold with ⟨d, hd, hdpart⟩ | hdone
      · have hm := hown d hd
        obtain ⟨e', j', rfl, _⟩ := isPart_iff.1 hdpart
        have hm' : m' = m := of_decide_eq_true hm
        exact hm' ▸ hcomplete
      · exact fun k hk => (hdone k hk).mono (List.subset_cons_self _ past)

/-- Any other part is put into it. -/
theorem Tracks.put {e : Envelope} {i : Fin m.parts.length} (h : Tracks r past s)
    (hr : m.reference = r) (hlast : ¬ LastMissing past m i)
    (htable : s'.concatenatedMessage r =
      Function.update (s.concatenatedMessage r) (i.val + 1) (some m.parts[i])) :
    Tracks r (.part e m i :: past) s' := by
  have hunder : (Delivery.part e m i).isUnder r = true := decide_eq_true hr
  have hcompletes : ¬ (Delivery.part e m i).Completes past := hlast
  have hstretch : stretch r (.part e m i :: past) = .part e m i :: stretch r past := by
    rw [stretch, if_pos hunder, if_neg hcompletes]
  refine ⟨fun k v hv => ?_, fun m' j harrived => ?_, fun m' j hr' harrived => ?_⟩
  · rw [htable] at hv
    rw [hstretch]
    by_cases hk : k = i.val + 1
    · subst hk
      rw [Function.update_self] at hv
      exact ⟨e, m, i, List.mem_cons_self, rfl, (Option.some.inj hv).symm⟩
    · rw [Function.update_of_ne hk] at hv
      obtain ⟨e', m', j, hmem, hkj, hvj⟩ := h.stored k v hv
      exact ⟨e', m', j, List.mem_cons_of_mem _ hmem, hkj, hvj⟩
  · rw [hstretch] at harrived
    rw [htable]
    by_cases hj : j = i.val
    · rw [hj, Function.update_self]
      exact Option.some_ne_none _
    · rw [Function.update_of_ne (by omega)]
      refine h.kept m' j ((arrived_cons.1 harrived).resolve_left fun hnew => ?_)
      obtain ⟨e', j', heq, hval⟩ := isPart_iff.1 hnew
      cases heq
      exact hj hval.symm
  · rw [hstretch]
    rcases arrived_cons.1 harrived with hnew | hold
    · exact .inl (arrived_cons.2 (.inl hnew))
    · rcases h.whole m' j hr' hold with hin | hdone
      · exact .inl (arrived_cons.2 (.inr hin))
      · exact .inr fun k hk => (hdone k hk).mono (List.subset_cons_self _ past)

theorem give_part_eq {e : Envelope} {i : Fin m.parts.length} :
    (Delivery.part e m i).give addr s =
      some ((s.withNumber addr m.sender).parsePart m.reference
        ((i.val + 1 : Nat) : Int) (m.parts.length : Nat) m.parts[i]) := by
  have hinRange := m.inRange
  have hnumbered := m.numbered
  have hi := i.isLt
  exact parse_partLine (by omega) (by omega) (by omega)

theorem Tracks.withNumber {sender : List Char} (h : Tracks r past s) :
    Tracks r past (s.withNumber addr sender) := ⟨h.stored, h.kept, h.whole⟩

/-- A part under the reference. -/
theorem give_part {e : Envelope} {i : Fin m.parts.length} (h : Tracks r past s)
    (hr : m.reference = r)
    (hundisturbed : (Delivery.part e m i).Undisturbed r past) :
    ∃ b s', (Delivery.part e m i).give addr s = some (b, s') ∧
      Tracks r (.part e m i :: past) s' ∧ (b = true ↔ LastMissing past m i) ∧
      (b = true → s'.getMessage = m.parts.flatten ∧
        (Readable m.sender → NumberIs s' m.sender)) := by
  obtain ⟨hown, hagain⟩ := hundisturbed hr
  have hnumbered := m.numbered
  have h := @Tracks.withNumber r addr past s m.sender h
  have hfull := h.full_iff hr hown i hagain
  have hpart := h.partOf hown i
  subst hr
  rw [give_part_eq, parsePart_eq rfl]
  by_cases hlast : LastMissing past m i
  · rw [if_pos (hfull.2 hlast)]
    refine ⟨true, _, rfl, h.clear rfl hown hlast (Function.update_self ..),
      iff_of_true rfl hlast, fun _ => ⟨?_, fun hread => ?_⟩⟩
    · exact congrArg List.flatten (hpart.entries_eq (by omega) (hfull.2 hlast))
    · exact numberIs_of_text hread (withNumber_text hread)
  · rw [if_neg (mt hfull.1 hlast)]
    exact ⟨false, _, rfl, h.put rfl hlast (Function.update_self ..),
      iff_of_false Bool.false_ne_true hlast, fun hb => absurd hb Bool.false_ne_true⟩

/-- The second half of the rule is exact: a complete message that arrives as a
whole again is reported again. -/
theorem give_part_again {e : Envelope} {i : Fin m.parts.length} (h : Tracks r past s)
    (hr : m.reference = r) (hown : ∀ d ∈ stretch r past, d.isOf m)
    (hagain : ∀ j < m.parts.length, j ≠ i.val → Arrived (stretch r past) m j) :
    ∃ s', (Delivery.part e m i).give addr s = some (true, s') := by
  have h := @Tracks.withNumber r addr past s m.sender h
  have hfull := (h.full_iff_stretch hown i).2 hagain
  subst hr
  rw [give_part_eq, parsePart_eq rfl, if_pos hfull]
  exact ⟨_, rfl⟩

theorem give_tracks {d : Delivery} (h : Tracks r past s)
    (hundisturbed : d.Undisturbed r past) :
    ∃ b s', d.give addr s = some (b, s') ∧ Tracks r (d :: past) s' := by
  cases d with
  | single e sender text =>
      exact ⟨_, _, parse_singleLine, h.frame rfl rfl⟩
  | part e m i =>
      by_cases hr : m.reference = r
      · obtain ⟨b, s', hgive, htracks, _⟩ := give_part h hr hundisturbed
        exact ⟨b, s', hgive, htracks⟩
      · exact ⟨_, _, give_part_eq, h.frame (decide_eq_false hr)
          (parsePart_frame m.inRange hr)⟩

end Step

/-! ## Whole histories -/

theorem after_tracks {alloc : Nat → Nat} {r : Nat} : ∀ {history : List Delivery},
    Clean r history → ∃ s, after alloc history = some s ∧ Tracks r history s := by
  intro history
  induction history with
  | nil => exact fun _ => ⟨_, rfl, tracks_initial⟩
  | cons d past ih =>
      intro hclean
      obtain ⟨s, hs, htracks⟩ := ih hclean.2
      obtain ⟨b, s', hgive, htracks'⟩ :=
        @give_tracks r (alloc (past.length + 1)) past s d htracks hclean.1
      refine ⟨s', ?_, htracks'⟩
      rw [after, hs, Option.bind_some, hgive]
      rfl

/-- What the parser answers to a part of a clean history. -/
theorem outcome_part {alloc : Nat → Nat} {past : List Delivery} {e : Envelope}
    {m : Concatenated} {i : Fin m.parts.length}
    (hclean : Clean m.reference (.part e m i :: past)) :
    ∃ b s, outcome alloc past (.part e m i) = some (b, s) ∧
      (b = true ↔ LastMissing past m i) ∧
      (b = true → s.getMessage = m.parts.flatten ∧
        (Readable m.sender → NumberIs s m.sender)) := by
  obtain ⟨s, hs, htracks⟩ := @after_tracks alloc _ _ hclean.2
  obtain ⟨b, s', hgive, _, hiff, htrue⟩ :=
    @give_part _ (alloc (past.length + 1)) past s m e i htracks rfl hclean.1
  refine ⟨b, s', ?_, hiff, htrue⟩
  rw [outcome, hs, Option.bind_some, hgive]

/-- A message whose parts all arrive is put together once, if nothing disturbs
its reference. -/
theorem reassembledOnce_of_clean {alloc : Nat → Nat} {history : List Delivery}
    {m : Concatenated} (hclean : Clean m.reference history)
    (hreadable : Readable m.sender) (hall : Complete history m) :
    ReassembledOnce alloc history m := by
  obtain ⟨past, later, e, i, hsplit, hlast⟩ := exists_lastMissing hall
  have hhere : ∀ {past' later' : List Delivery} {e' : Envelope}
      {i' : Fin m.parts.length}, history = later' ++ .part e' m i' :: past' →
      Clean m.reference (.part e' m i' :: past') := by
    intro past' later' e' i' hsplit'
    rw [hsplit'] at hclean
    exact clean_suffix hclean
  obtain ⟨b, s, hout, hiff, htrue⟩ := @outcome_part alloc _ _ _ _ (hhere hsplit)
  have hb := hiff.2 hlast
  obtain ⟨hmessage, hnumber⟩ := htrue hb
  refine ⟨past, later, e, i, s, hsplit, hlast, by rw [hout, hb], hmessage,
    hnumber hreadable, ?_⟩
  intro past' later' e' i' s' hsplit' hout'
  obtain ⟨b', s'', hout'', hiff', _⟩ := @outcome_part alloc _ _ _ _ (hhere hsplit')
  rw [hout'', Option.some.injEq, Prod.mk.injEq] at hout'
  have hlast' := hiff'.1 hout'.1
  have hlen : past'.length = past.length := Nat.le_antisymm
    (Nat.le_of_not_lt (lastMissing_unique hsplit' hsplit hlast' hlast))
    (Nat.le_of_not_lt (lastMissing_unique hsplit hsplit' hlast hlast'))
  rw [hsplit] at hsplit'
  have hlater : later.length = later'.length := by
    have := congrArg List.length hsplit'
    rw [List.length_append, List.length_append, List.length_cons,
      List.length_cons] at this
    omega
  exact (List.cons.inj (List.append_inj hsplit' hlater).2).2.symm

/-- `"REC UNREAD"`, `22/09/16` and `14:49:11+08`. -/
def unreadEnvelope : Envelope where
  status := [0x22, 0x52, 0x45, 0x43, 0x20, 0x55, 0x4E, 0x52, 0x45, 0x41, 0x44, 0x22]
  date := [0x32, 0x32, 0x2F, 0x30, 0x39, 0x2F, 0x31, 0x36]
  time := [0x31, 0x34, 0x3A, 0x34, 0x39, 0x3A, 0x31, 0x31, 0x2B, 0x30, 0x38]
  noComma := by decide

/-- A message of two letters, each a part, with the reference 34. -/
def twoParts (sender : List Char) (a b : Nat) : Concatenated where
  sender := sender
  reference := 34
  parts := [UCS2.hex4 a, UCS2.hex4 b]
  inRange := by omega
  notEmpty := by simp
  numbered := by simp

def partOfTwo (sender : List Char) (a b : Nat) (i : Fin 2) : Delivery :=
  .part unreadEnvelope (twoParts sender a b) i

/-- A repeated part, a single message, and another sender afterwards. -/
theorem reassembledOnce_repeated :
    ReassembledOnce (fun _ => 1)
      [partOfTwo ['+', '2'] 0x43 0x44 1, partOfTwo ['+', '2'] 0x43 0x44 0,
        partOfTwo ['+', '1'] 0x41 0x42 0, .single unreadEnvelope ['+', '3'] [],
        partOfTwo ['+', '1'] 0x41 0x42 1, partOfTwo ['+', '1'] 0x41 0x42 1]
      (twoParts ['+', '1'] 0x41 0x42) :=
  reassembledOnce_of_clean (by decide) (by decide) (by decide)

/-- Two senders use the reference 34 at a time: the first part of the second
stands in the message of the first. -/
theorem mixed_senders :
    Complete [partOfTwo ['+', '2'] 0x43 0x44 1, partOfTwo ['+', '1'] 0x41 0x42 1,
        partOfTwo ['+', '2'] 0x43 0x44 0, partOfTwo ['+', '1'] 0x41 0x42 0]
      (twoParts ['+', '1'] 0x41 0x42) ∧
    ¬ ReassembledOnce (fun _ => 1)
      [partOfTwo ['+', '2'] 0x43 0x44 1, partOfTwo ['+', '1'] 0x41 0x42 1,
        partOfTwo ['+', '2'] 0x43 0x44 0, partOfTwo ['+', '1'] 0x41 0x42 0]
      (twoParts ['+', '1'] 0x41 0x42) := by
  refine ⟨by decide, ?_⟩
  intro ⟨past, later, e, i, s, hsplit, hlast, hout, hmessage, _⟩
  have hmixed : (outcome (fun _ => 1)
      [partOfTwo ['+', '2'] 0x43 0x44 0, partOfTwo ['+', '1'] 0x41 0x42 0]
      (partOfTwo ['+', '1'] 0x41 0x42 1)).map (fun o => o.2.getMessage) =
        some (UCS2.hex4 0x43 ++ UCS2.hex4 0x42) := by decide +kernel
  have hother : ∀ i, (partOfTwo ['+', '2'] 0x43 0x44 i).isOf
      (twoParts ['+', '1'] 0x41 0x42) = false := by decide
  have hown : (Delivery.part e _ i).isOf (twoParts ['+', '1'] 0x41 0x42) = true := by
    rw [Delivery.isOf, decide_eq_true_eq]
  rcases later with _ | ⟨d₁, _ | ⟨d₂, _ | ⟨d₃, _ | ⟨d₄, later⟩⟩⟩⟩
  all_goals
    simp only [List.nil_append, List.cons_append, List.cons.injEq] at hsplit
  · rw [← hsplit.1, hother] at hown
    exact Bool.false_ne_true hown
  · obtain ⟨_, hpart, rfl⟩ := hsplit
    rw [← hpart] at hout
    rw [hout, Option.map_some, hmessage] at hmixed
    exact absurd hmixed (by decide)
  · rw [← hsplit.2.2.1, hother] at hown
    exact Bool.false_ne_true hown
  · obtain ⟨_, _, _, hpart, rfl⟩ := hsplit
    cases hpart
    exact not_arrived_nil (hlast.2 1 (by decide) (by decide))
  · have := congrArg List.length hsplit.2.2.2.2
    simp at this

end MuditaOS.Sms

import MuditaOS.Cellular.PduGrammar
import Mathlib.Data.List.Basic
import Mathlib.Tactic.ByContra

/-!
# The parser follows the grammar

A range `At` some octets is a range of positions between which the message has
them. From ranges that are, the parser reads what the grammar reads from the
octets: the two fail together, give the same values, and what the parser
touches on the way is within bounds, but for the texts it compares with shorter
names.
-/

namespace MuditaOS.Cellular.Pdu

open MuditaOS.Lib
open Pdu.Parser

variable {mem : Memory}

/-- The message has these octets in this range. -/
def At (mem : Memory) (rng : CharRange) (octets : List UInt8) : Prop :=
  ∃ front back, mem.message = front ++ octets ++ back ∧
    rng = ⟨front.length, front.length + octets.length⟩

namespace At

variable {rng : CharRange} {octets : List UInt8}

theorem size (h : At mem rng octets) : rng.size = octets.length := by
  obtain ⟨front, back, _, rfl⟩ := h
  exact Nat.add_sub_cancel_left ..

theorem mEnd (h : At mem rng octets) : rng.mEnd = rng.mBegin + octets.length := by
  obtain ⟨front, back, _, rfl⟩ := h
  rfl

/-- A part of the octets is a part of the range. -/
theorem part {a b c : List UInt8} (h : At mem rng (a ++ b ++ c)) :
    At mem ⟨rng.mBegin + a.length, rng.mBegin + a.length + b.length⟩ b := by
  obtain ⟨front, back, hmessage, rfl⟩ := h
  refine ⟨front ++ a, c ++ back, by simpa using hmessage, ?_⟩
  simp

theorem prefixPart {a b : List UInt8} (h : At mem rng (a ++ b)) :
    At mem ⟨rng.mBegin, rng.mBegin + a.length⟩ a :=
  part (a := []) h

theorem suffixPart {a b : List UInt8} (h : At mem rng (a ++ b)) :
    At mem ⟨rng.mBegin + a.length, rng.mEnd⟩ b := by
  have hpart := part (a := a) (b := b) (c := []) (by simpa using h)
  have hend : rng.mEnd = rng.mBegin + a.length + b.length := by
    rw [h.mEnd, List.length_append, Nat.add_assoc]
  rwa [hend]

theorem tail {octet : UInt8} (h : At mem rng (octet :: octets)) :
    At mem { rng with mBegin := rng.mBegin + 1 } octets :=
  suffixPart (a := [octet]) h

theorem nonempty {octet : UInt8} (h : At mem rng (octet :: octets)) : rng.mBegin ≠ rng.mEnd := by
  rw [h.mEnd, List.length_cons]
  omega

theorem inBounds {octet : UInt8} (h : At mem rng (octet :: octets)) :
    rng.mBegin < mem.message.length := by
  obtain ⟨front, back, hmessage, rfl⟩ := h
  simp [hmessage]

theorem read {octet : UInt8} (h : At mem rng (octet :: octets)) :
    mem.read (.message rng.mBegin) = octet := by
  obtain ⟨front, back, hmessage, rfl⟩ := h
  simp [Memory.read, hmessage]

/-- The range of no octet, wherever it is. -/
theorem empty {n : Nat} (h : n ≤ mem.message.length) : At mem ⟨n, n⟩ [] :=
  ⟨mem.message.take n, mem.message.drop n, by simp, by simp [h]⟩

theorem whole : At mem ⟨0, mem.message.length⟩ mem.message :=
  ⟨[], [], by simp, by simp⟩

theorem isEmpty (h : At mem rng octets) : rng.isEmpty ↔ octets = [] := by
  rw [CharRange.isEmpty, beq_iff_eq, h.mEnd]
  cases octets <;> simp

end At

/-- The computation reads what the pure one says. -/
abbrev Reads {α β : Type} (mem : Memory) (R : α → β → Prop) (x : Traced Access α) (y : Option β)
    (c : Prop) : Prop :=
  Traced.Follows (Access.InBounds mem.message) R x y c

/-- A value, and the octets that are left. -/
def Rest {α β : Type} (mem : Memory) (R : α → β → Prop) (a : α × Octets) (b : β × List UInt8) :
    Prop :=
  R a.1 b.1 ∧ At mem a.2 b.2

theorem load_reads {a : Access} {octet : UInt8} (hin : a.InBounds mem.message)
    (hread : mem.read a = octet) : Reads mem Eq (mem.load a) (some octet) True :=
  (Traced.Follows.event hread).congr (iff_true_intro hin)

theorem require_reads {b : Bool} : Reads mem Eq (require b) (guard (b = true)) True := by
  cases b
  · exact Traced.Follows.fail
  · exact Traced.Follows.pure rfl

/-! ## Octets -/

section Octets

variable {octets : Octets} {l : List UInt8}

theorem at_nil (h : At mem octets []) : octets.mBegin = octets.mEnd := by
  simpa using h.mEnd.symm

/-- One octet on. -/
theorem next_reads (h : At mem octets l) :
    Reads mem (fun a b => a = (b.1, { octets with mBegin := octets.mBegin + 1 }) ∧ At mem a.2 b.2)
      (octets.next mem) (Grammar.next l) True := by
  cases l with
  | nil =>
      rw [CharRange.next, if_neg (not_not_intro (at_nil h))]
      exact .fail
  | cons octet rest =>
      rw [CharRange.next, if_pos h.nonempty]
      refine (load_reads (a := .message _) h.inBounds h.read).bind_some ?_
      intro a ha
      exact .pure ⟨by rw [ha], h.tail⟩

theorem peek_nil (h : At mem octets []) : octets.peek mem = Traced.fail := by
  rw [CharRange.peek, if_neg (not_not_intro (at_nil h))]

theorem peek_reads {octet : UInt8} (h : At mem octets (octet :: l)) :
    Reads mem Eq (octets.peek mem) (some octet) True := by
  rw [CharRange.peek, if_pos h.nonempty]
  exact load_reads (a := .message _) h.inBounds h.read

theorem ignore_eq {octet : UInt8} (h : At mem octets (octet :: l)) :
    octets.ignore = { octets with mBegin := octets.mBegin + 1 } := by
  rw [CharRange.ignore, if_pos h.nonempty]

theorem ignore_at {octet : UInt8} (h : At mem octets (octet :: l)) : At mem octets.ignore l := by
  rw [ignore_eq h]
  exact h.tail

theorem advancedByN_eq (h : At mem octets l) (n : Nat) :
    octets.advancedByN n = octets.mBegin + (l.take n).length := by
  rw [CharRange.advancedByN, h.size, h.mEnd, List.length_take]
  split <;> omega

theorem ignoreN_at (h : At mem octets l) (n : Nat) : At mem (octets.ignoreN n) (l.drop n) := by
  rw [CharRange.ignoreN, advancedByN_eq h]
  exact At.suffixPart (by rwa [List.take_append_drop])

theorem subOctets_at (h : At mem octets l) (n : Nat) :
    At mem (octets.subOctets n).1 (l.take n) ∧ At mem (octets.subOctets n).2 (l.drop n) := by
  refine ⟨?_, ignoreN_at h n⟩
  rw [CharRange.subOctets, advancedByN_eq h]
  exact At.prefixPart (b := l.drop n) (by rwa [List.take_append_drop])

end Octets

/-! ## Numbers and texts -/

section Parts

variable {octets : Octets} {l : List UInt8}

theorem parseUintvarLoop_reads : ∀ {rounds : Nat} {val : UInt32} {octets : Octets}
    {l : List UInt8}, At mem octets l →
      Reads mem (Rest mem Eq) (parseUintvarLoop mem rounds val octets)
        (Grammar.uintvar rounds val l) True := by
  intro rounds
  induction rounds with
  | zero => intro val octets l h; exact .fail
  | succ rounds ih =>
      intro val octets l h
      rw [parseUintvarLoop, Grammar.uintvar]
      refine (next_reads h).bind_true ?_
      rintro _ ⟨octet, rest⟩ ⟨rfl, hrest⟩ _
      dsimp only
      split
      · exact .pure ⟨rfl, hrest⟩
      · exact ih hrest

theorem parseUintvar_reads (h : At mem octets l) :
    Reads mem (Rest mem Eq) (parseUintvar mem octets) (Grammar.uintvar 5 0 l) True :=
  parseUintvarLoop_reads h

theorem parseTextLoop_end {fuel last : Nat} :
    parseTextLoop mem fuel last endOfString octets = pure (last, octets) := by
  cases fuel <;> rfl

/-- Once an octet that is no zero is taken, the text goes on to the next zero. -/
theorem parseTextLoop_reads : ∀ {l : List UInt8} {fuel last : Nat} {octet : UInt8}
    {octets : Octets}, At mem octets l → octet ≠ endOfString → l.length < fuel →
      Reads mem (fun a b => a.1 = octets.mBegin + b.1.length ∧ At mem a.2 b.2)
        (parseTextLoop mem fuel last octet octets) (Grammar.text l) True := by
  intro l
  induction l with
  | nil =>
      intro fuel last octet octets h hoctet hfuel
      obtain ⟨fuel, rfl⟩ := Nat.exists_eq_succ_of_ne_zero (Nat.ne_of_gt hfuel)
      rw [parseTextLoop, if_neg hoctet]
      exact (next_reads h).bind_none fun a b _ hb => nomatch hb
  | cons c l ih =>
      intro fuel last octet octets h hoctet hfuel
      obtain ⟨fuel, rfl⟩ := Nat.exists_eq_succ_of_ne_zero (Nat.ne_of_gt (Nat.zero_lt_of_lt hfuel))
      rw [parseTextLoop, if_neg hoctet]
      refine (next_reads h).bind_some ?_
      rintro _ ⟨rfl, hrest⟩
      dsimp only at hrest ⊢
      rw [Grammar.text]
      by_cases hc : c = endOfString
      · rw [if_pos hc, hc, parseTextLoop_end]
        exact .pure ⟨rfl, hrest⟩
      · rw [if_neg hc]
        refine (ih hrest hc (by simpa using hfuel)).map ?_
        intro a b hab
        refine ⟨?_, hab.2⟩
        rw [hab.1, List.length_cons, Nat.add_assoc, Nat.add_comm 1]

/-- The text of a range, which has no zero in it. -/
def TextAt (mem : Memory) (rng : CharRange) (t : List UInt8) : Prop := At mem rng t ∧ 0 ∉ t

theorem parseText_reads {octet : UInt8} (h : At mem octets (octet :: l)) :
    Reads mem (Rest mem (TextAt mem)) (parseText mem octets) (Grammar.textFrom octet l) True := by
  rw [parseText]
  refine (next_reads h).bind_some ?_
  rintro _ ⟨rfl, hrest⟩
  dsimp only at hrest ⊢
  rw [hrest.size, Grammar.textFrom]
  by_cases hescape : octet = textEscape
  · -- The text begins behind the escape.
    rw [if_pos hescape, if_pos hescape]
    refine .of_eq ((parseTextLoop_reads hrest (by rw [hescape]; decide) (Nat.lt_succ_self _)).bind_map
      (k := fun b => b) ?_) Option.map_id'
    rintro ⟨last, rest⟩ ⟨t, l'⟩ ⟨hlast, hat⟩ ht
    obtain ⟨hcut, hzero⟩ := Grammar.text_eq ht
    dsimp only at hlast ⊢
    subst hlast hcut
    exact .pure ⟨⟨hrest.prefixPart, hzero⟩, hat⟩
  · rw [if_neg hescape, if_neg hescape, Grammar.text]
    by_cases hend : octet = endOfString
    · rw [if_pos hend, hend, parseTextLoop_end]
      exact .pure ⟨⟨h.prefixPart (a := []), by simp⟩, hrest⟩
    · rw [if_neg hend]
      refine (parseTextLoop_reads hrest hend (Nat.lt_succ_self _)).bind_map ?_
      rintro ⟨last, rest⟩ ⟨t, l'⟩ ⟨hlast, hat⟩ ht
      obtain ⟨hcut, hzero⟩ := Grammar.text_eq ht
      dsimp only at hlast ⊢
      subst hlast hcut
      have hrange : octets.mBegin + 1 + t.length = octets.mBegin + (octet :: t).length := by
        rw [List.length_cons]
        omega
      refine .pure ⟨⟨?_, ?_⟩, hat⟩
      · rw [hrange]
        exact h.prefixPart (a := octet :: t)
      · exact fun hmem => (List.mem_cons.1 hmem).elim (Ne.symm hend) hzero

theorem parseTextN_reads (h : At mem octets l) :
    Reads mem (fun a b => At mem a.1 b) (parseTextN mem octets l.length) (Grammar.textN l)
      True := by
  rw [parseTextN, Grammar.textN]
  split
  · exact .fail
  · split
    · rename_i hlen
      obtain rfl := List.length_eq_zero_iff.1 hlen
      exact .pure (h.prefixPart (a := []))
    · rename_i hlen
      obtain ⟨t, octet, rfl⟩ := List.eq_nil_or_concat' l |>.resolve_left
        (fun hnil => hlen (by rw [hnil]; rfl))
      have hlast : At mem (octets.ignoreN ((t ++ [octet]).length - 1)) [octet] := by
        simpa using ignoreN_at h ((t ++ [octet]).length - 1)
      refine (next_reads hlast).bind_some ?_
      rintro _ ⟨rfl, hrest⟩
      have hbegin : (octets.ignoreN ((t ++ [octet]).length - 1)).mBegin =
          octets.mBegin + t.length := by
        rw [CharRange.ignoreN, advancedByN_eq h]
        simp
      dsimp only
      rw [hbegin, List.getLast?_concat, List.dropLast_concat]
      by_cases hend : octet = endOfString
      · rw [if_pos hend, if_pos (by rw [hend])]
        exact .pure h.prefixPart
      · rw [if_neg hend, if_neg fun hsome => hend (Option.some.inj hsome)]
        have hwhole : At mem octets (t ++ [octet] ++ []) := by simpa using h
        have hrange := hwhole.prefixPart
        rw [List.length_append, ← Nat.add_assoc] at hrange
        exact .pure hrange

/-! ## The kinds of value -/

theorem parseGeneric_reads {ν β : Type} {policy : Policy ν} {R : ν × Octets → β → Prop}
    {data text shortInteger : UInt8 → List UInt8 → Option β} (h : At mem octets l)
    (hdata : ∀ octet rest, At mem octets (octet :: rest) →
      Reads mem R (policy.data octets octet) (data octet rest) True)
    (htext : ∀ octet rest, At mem octets (octet :: rest) → octet ≠ endOfString →
      Reads mem R (policy.text octets octet) (text octet rest) True)
    (hshort : ∀ octet rest, At mem octets (octet :: rest) →
      Reads mem R (policy.shortInteger octets octet) (shortInteger octet rest) True) :
    Reads mem R (parseGeneric mem policy octets)
      (Grammar.generic data text shortInteger l) True := by
  rw [parseGeneric]
  cases l with
  | nil => rw [peek_nil h]; exact .fail
  | cons octet rest =>
      refine (peek_reads h).bind_some ?_
      rintro octet rfl
      rw [Grammar.generic]
      by_cases hdat : octet < textMin
      · rw [if_pos hdat, if_pos hdat]
        exact hdata octet rest h
      · rw [if_neg hdat, if_neg hdat]
        by_cases htxt : octet ≤ textMax
        · rw [if_pos htxt, if_pos htxt]
          exact htext octet rest h fun hzero => hdat (by rw [hzero]; decide)
        · rw [if_neg htxt, if_neg htxt]
          exact hshort octet rest h

theorem length_reads {lengthOctet : UInt8} (h : At mem octets l) :
    Reads mem (Rest mem Eq) (DefaultPolicy.length mem octets lengthOctet)
      (Grammar.length lengthOctet l) True := by
  rw [DefaultPolicy.length, Grammar.length]
  split
  · exact parseUintvar_reads h
  · exact .pure ⟨rfl, h⟩

/-- The same value, its ranges read. -/
inductive ValueAt (mem : Memory) : DefaultValue CharRange → DefaultValue (List UInt8) → Prop where
  | uint8 (n : UInt8) : ValueAt mem (.uint8 n) (.uint8 n)
  | text {rng : CharRange} {t : List UInt8} (h : TextAt mem rng t) : ValueAt mem (.text rng) (.text t)
  | octets {rng : CharRange} {o : List UInt8} (h : At mem rng o) :
      ValueAt mem (.octets rng) (.octets o)

theorem value_reads (h : At mem octets l) :
    Reads mem (Rest mem (ValueAt mem)) (parseGeneric mem (defaultPolicy mem) octets)
      (Grammar.value l) True := by
  refine parseGeneric_reads h ?_ ?_ ?_
  · intro octet rest h
    refine (length_reads (ignore_at h)).bind_true ?_
    rintro ⟨n, octets⟩ ⟨_, rest⟩ ⟨rfl, hrest⟩ _
    dsimp only
    rw [hrest.size]
    split
    · exact .fail
    · obtain ⟨htake, hdrop⟩ := subOctets_at hrest n.toNat
      exact .pure ⟨.octets htake, hdrop⟩
  · intro octet rest h _
    refine (parseText_reads h).bind_map ?_
    intro ⟨rng, octets⟩ ⟨t, rest⟩ ⟨htext, hrest⟩ _
    exact .pure ⟨.text htext, hrest⟩
  · intro octet rest h
    exact .pure ⟨.uint8 _, ignore_at h⟩

theorem ignoreTextLoop_eq : ∀ {fuel last : Nat} {octet : UInt8} {octets : Octets},
    IgnoreHeaderValuePolicy.textLoop mem fuel octet octets =
      parseTextLoop mem fuel last octet octets >>= fun p => pure ((), p.2) := by
  intro fuel
  induction fuel with
  | zero =>
      intro last octet octets
      rw [IgnoreHeaderValuePolicy.textLoop, parseTextLoop]
      split <;> rfl
  | succ fuel ih =>
      intro last octet octets
      rw [IgnoreHeaderValuePolicy.textLoop, parseTextLoop]
      split
      · rfl
      · rw [bind_assoc]
        exact bind_congr fun _ => ih

/-- A value that is skipped takes the octets it would take if it were read. -/
theorem ignore_reads (h : At mem octets l) :
    Reads mem (fun a b => At mem a.2 b.2) (parseGeneric mem (ignoreHeaderValuePolicy mem) octets)
      (Grammar.value l) True := by
  refine parseGeneric_reads h ?_ ?_ ?_
  · intro octet rest h
    refine (length_reads (ignore_at h)).bind_true ?_
    rintro ⟨n, octets⟩ ⟨_, rest⟩ ⟨rfl, hrest⟩ _
    dsimp only
    rw [hrest.size]
    split
    · exact .fail
    · exact .pure (ignoreN_at hrest n.toNat)
  · intro octet rest h hoctet
    have hrest := ignore_at h
    have hloop : Reads mem (fun a b => At mem a.2 b.2)
        (IgnoreHeaderValuePolicy.text mem octets octet) (Grammar.text rest) True := by
      rw [IgnoreHeaderValuePolicy.text, @ignoreTextLoop_eq _ _ 0, hrest.size]
      refine .of_eq ((parseTextLoop_reads hrest hoctet (Nat.lt_succ_self _)).bind_map
        (k := fun b => b) ?_) Option.map_id'
      intro a b hab _
      exact .pure hab.2
    rw [Grammar.textFrom]
    split
    · exact hloop.map fun a b hab => hab
    · rw [Grammar.text, if_neg hoctet, Option.map_map]
      exact hloop.map fun a b hab => hab
  · intro octet rest h
    exact .pure (ignore_at h)

end Parts

/-! ## Comparisons with a literal -/

section Known

theorem literal_read {cstr : List UInt8} {i : Nat} (h : i < cstr.length) :
    mem.read (.literal cstr i) = cstr[i] := by
  simp [Memory.read, List.getElem?_append_left h, h]

theorem literal_end {cstr : List UInt8} : mem.read (.literal cstr cstr.length) = 0 := by
  simp [Memory.read]

/-- A text meets the terminating zero of the literal at the latest. -/
theorem equal_reads {cstr : List UInt8} : ∀ {t : List UInt8} {rng : CharRange} {i : Nat},
    TextAt mem rng t → i ≤ cstr.length →
      Reads mem Eq (CharRange.equal mem t.length rng.mBegin cstr i)
        (some (t.isPrefixOf (cstr.drop i))) True := by
  intro t
  induction t with
  | nil => intro rng i _ _; exact .pure (by simp)
  | cons c t ih =>
      intro rng i h hi
      obtain ⟨hat, hzero⟩ := h
      have hc : c ≠ 0 := fun hc => hzero (by simp [hc])
      rw [List.length_cons, CharRange.equal]
      refine (load_reads (a := .message _) hat.inBounds hat.read).bind_some ?_
      rintro _ rfl
      refine (load_reads (a := .literal _ _) hi rfl).bind_some ?_
      rintro b rfl
      rcases Nat.lt_or_eq_of_le hi with hlt | heq
      · rw [literal_read hlt, List.drop_eq_getElem_cons hlt]
        split
        · rename_i heq
          have hrest := ih ⟨hat.tail, fun hmem => hzero (List.mem_cons_of_mem _ hmem)⟩ hlt
          exact hrest.of_eq (by simp [List.isPrefixOf, heq])
        · rename_i hne
          exact .pure (by simp [List.isPrefixOf, hne])
      · rw [heq, literal_end, if_neg hc]
        exact .pure (by simp)

/-- A zero where the text would end is the end of the literal, or lies behind it. -/
theorem isPrefixOf_of_read {t : List UInt8} {known : KnownHeader}
    (h : mem.read (.literal known.idCStr t.length) = 0) :
    t.isPrefixOf known.idCStr = (t == known.idCStr) := by
  have hle : known.idCStr.length ≤ t.length := by
    by_contra hlt
    rw [literal_read (Nat.lt_of_not_le hlt)] at h
    exact known.terminated (h ▸ List.getElem_mem _)
  rw [Bool.eq_iff_iff, List.isPrefixOf_iff_prefix, beq_iff_eq]
  constructor
  · intro hprefix
    exact hprefix.eq_of_length_le hle
  · rintro rfl
    exact List.prefix_refl _

theorem eqCStr_reads {rng : CharRange} {t : List UInt8} {known : KnownHeader}
    (h : TextAt mem rng t) :
    Reads mem Eq (rng.eqCStr mem known.idCStr) (some (t == known.idCStr))
      (t.length ≤ known.idCStr.length) := by
  rw [CharRange.eqCStr, h.1.size]
  refine ((Traced.Follows.event (R := Eq) rfl).bind_value (d := True) ?_).congr
    (by simp [Access.InBounds])
  rintro _ rfl
  split
  · rename_i hzero
    refine (equal_reads h (Nat.zero_le _)).of_eq ?_
    rw [List.drop_zero, isPrefixOf_of_read hzero]
  · rename_i hnonzero
    refine .pure (Eq.symm ?_)
    rw [beq_eq_false_iff_ne]
    rintro rfl
    exact hnonzero literal_end

theorem isKnown_reads {v : DefaultValue CharRange} {w : DefaultValue (List UInt8)}
    {known : KnownHeader} (h : ValueAt mem v w) :
    Reads mem Eq (isKnown mem v known) (some (known.names w)) (known.Covers w) := by
  cases h with
  | uint8 n => exact .pure rfl
  | text h => exact eqCStr_reads h
  | octets h => exact .pure rfl

end Known

/-! ## Header names -/

inductive NameAt (mem : Memory) : HeaderName CharRange → HeaderName (List UInt8) → Prop where
  | uint8 (n : UInt8) : NameAt mem (.uint8 n) (.uint8 n)
  | text {rng : CharRange} {t : List UInt8} (h : TextAt mem rng t) : NameAt mem (.text rng) (.text t)

theorem NameAt.toValue {a : HeaderName CharRange} {b : HeaderName (List UInt8)}
    (h : NameAt mem a b) : ValueAt mem a.toValue b.toValue := by
  cases h with
  | uint8 n => exact .uint8 n
  | text h => exact .text h

theorem rawName_reads {octets : Octets} {l : List UInt8} (h : At mem octets l) :
    Reads mem (Rest mem (NameAt mem)) (parseGeneric mem (headerNamePolicy mem) octets)
      (Grammar.rawName l) True := by
  refine parseGeneric_reads h ?_ ?_ ?_
  · intro octet rest h
    exact .pure ⟨.uint8 _, ignore_at h⟩
  · intro octet rest h _
    dsimp only [headerNamePolicy]
    by_cases hshift : octet = pageShift
    · rw [if_pos hshift, if_pos hshift]
      exact .pure ⟨.uint8 _, ignore_at h⟩
    · rw [if_neg hshift, if_neg hshift]
      refine (parseText_reads h).bind_map ?_
      intro ⟨rng, octets⟩ ⟨t, rest⟩ ⟨htext, hrest⟩ _
      exact .pure ⟨.text htext, hrest⟩
  · intro octet rest h
    exact .pure ⟨.uint8 _, ignore_at h⟩

end MuditaOS.Cellular.Pdu

/-! ## Values that are skipped

`IgnoreHeaderValuePolicy` walks over a header value with loops of its own. It fails where
`DefaultPolicy` fails, and otherwise leaves the same range behind: octet for octet, wherever
the range is and whatever stands in it.
-/

namespace MuditaOS.Cellular.Pdu

open MuditaOS.Lib
open Pdu.Parser

variable {mem : Memory} {octets : Octets}

/-- The range that is left where the parser succeeds. -/
def remaining {ν : Type} (x : Traced Access (ν × Octets)) : Option Octets := x.value.map (·.2)

theorem remaining_bind {α ν μ : Type} {x : Traced Access α} {f : α → Traced Access (ν × Octets)}
    {g : α → Traced Access (μ × Octets)} (h : ∀ a, remaining (f a) = remaining (g a)) :
    remaining (x >>= f) = remaining (x >>= g) := by
  obtain ⟨value, log⟩ := x
  cases value with
  | none => rfl
  | some a => exact h a

/-- What is done with the value does not matter. -/
theorem remaining_map {ν μ : Type} {x : Traced Access (ν × Octets)} {k : ν → μ} :
    remaining (x >>= fun p => pure (k p.1, p.2)) = remaining x := by
  obtain ⟨value, log⟩ := x
  cases value <;> rfl

theorem data_remaining {octet : UInt8} :
    remaining (IgnoreHeaderValuePolicy.data mem octets octet) =
      remaining (DefaultPolicy.data mem octets octet) := by
  rw [IgnoreHeaderValuePolicy.data, DefaultPolicy.data]
  refine remaining_bind fun p => ?_
  dsimp only
  split <;> rfl

/-- What is loaded is what memory holds. -/
theorem remaining_load {ν : Type} {a : Access} {f : UInt8 → Traced Access (ν × Octets)} :
    remaining (mem.load a >>= f) = remaining (f (mem.read a)) := rfl

theorem next_eq (h : octets.mBegin ≠ octets.mEnd) :
    octets.next mem =
      mem.load (.message octets.mBegin) >>= fun octet => pure (octet, octets.ignore) := by
  rw [CharRange.next, if_pos h, CharRange.ignore, if_pos h]

/-- The first octet, which has been peeked at, is taken without another look. -/
theorem text_remaining (h : octets.mBegin ≠ octets.mEnd) :
    remaining (IgnoreHeaderValuePolicy.text mem octets (mem.read (.message octets.mBegin))) =
      remaining (DefaultPolicy.text mem octets) := by
  rw [DefaultPolicy.text, parseText, next_eq h, bind_assoc, remaining_load, pure_bind,
    remaining_map (k := fun last => CharRange.mk _ last), IgnoreHeaderValuePolicy.text,
    ignoreTextLoop_eq, remaining_map (k := fun _ => ())]

/-- A value is skipped exactly where it can be parsed, and the octets that are left are the
same. No value takes more rounds than there are octets. -/
theorem skipped_as_parsed :
    remaining (parseGeneric mem (ignoreHeaderValuePolicy mem) octets) =
        remaining (parseGeneric mem (defaultPolicy mem) octets) ∧
      ∀ l, At mem octets l →
        .exhausted ∉ (parseGeneric mem (ignoreHeaderValuePolicy mem) octets).log ∧
        .exhausted ∉ (parseGeneric mem (defaultPolicy mem) octets).log := by
  refine ⟨?_, fun l h => ?_⟩
  · rw [parseGeneric, parseGeneric, CharRange.peek]
    by_cases hempty : octets.mBegin = octets.mEnd
    · rw [if_neg (not_not_intro hempty)]
      rfl
    · rw [if_pos hempty, remaining_load, remaining_load]
      split
      · exact data_remaining
      · split
        · exact (text_remaining hempty).trans remaining_map.symm
        · rfl
  · exact ⟨fun hmem => ((ignore_reads h).every.2 trivial) _ hmem,
      fun hmem => ((value_reads h).every.2 trivial) _ hmem⟩

end MuditaOS.Cellular.Pdu

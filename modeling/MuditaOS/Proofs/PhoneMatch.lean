import MuditaOS.Utils.PhoneNumber

/-!
# What a probable match rests on

The comparison does not depend on which number is asked. Its last resort takes one number for
an ending of the other also where they have the same length, as it then compares one of them
with itself.
-/

namespace MuditaOS.Utils.PhoneNumber

open MuditaOS.Lib phonenumbers

variable {γ κ : Type*} {util : PhoneNumberUtil γ κ} {a b : PhoneNumber γ κ}
  {mine other : List UInt8}

/-! ## The last resort -/

theorem isEnding_of_lt (h : other.length < mine.length) :
    isEnding mine other = true ↔ other ≠ [] ∧ other <:+ mine := by
  rw [isEnding, if_pos h, if_neg (Nat.not_lt.2 (Nat.le_of_lt h)), Bool.and_eq_true,
    decide_eq_true_eq, beq_iff_eq, gt_iff_lt, List.length_pos_iff, substr, Option.getD_some,
    List.take_of_length_le (by rw [List.length_drop]; omega)]
  refine and_congr_right fun _ => ?_
  rw [List.suffix_iff_eq_drop, eq_comm]

theorem isEnding_of_length_eq (h : mine.length = other.length) :
    isEnding mine other = true ↔ other ≠ [] := by
  rw [isEnding, if_neg (by omega), if_neg (by omega), Bool.and_eq_true, decide_eq_true_eq,
    beq_iff_eq, gt_iff_lt, List.length_pos_iff, Nat.sub_self, substr, List.drop_zero,
    Option.getD_some, List.take_length]
  exact and_iff_left rfl

theorem isEnding_comm : isEnding mine other = isEnding other mine := by
  rcases Nat.lt_trichotomy mine.length other.length with h | h | h
  · rw [isEnding, isEnding, if_neg (Nat.not_lt.2 (Nat.le_of_lt h)), if_pos h, if_pos h,
      if_neg (Nat.not_lt.2 (Nat.le_of_lt h))]
  · rw [Bool.eq_iff_iff, isEnding_of_length_eq h, isEnding_of_length_eq h.symm,
      ← List.length_pos_iff, ← List.length_pos_iff, h]
  · rw [isEnding, isEnding, if_pos h, if_neg (Nat.not_lt.2 (Nat.le_of_lt h)),
      if_neg (Nat.not_lt.2 (Nat.le_of_lt h)), if_pos h]

/-! ## The order of the numbers -/

theorem matchesE164_comm (h : (a.isValid ^^ b.isValid) = true) :
    matchesE164 util a b = matchesE164 util b a := by
  rw [matchesE164, matchesE164]
  cases ha : a.isValid <;> cases hb : b.isValid
  · rw [ha, hb] at h
    cases h
  · rfl
  · rfl
  · rw [ha, hb] at h
    cases h

theorem match_comm : a.match util b = b.match util a := by
  rw [«match», «match», Bool.xor_comm b.isValid, Bool.and_comm b.isValid,
    Bool.and_comm !b.isValid, Bool.beq_comm (a := b.get), @isEnding_comm a.getNonEmpty,
    util.isNumberMatch_comm b.pbNumber]
  cases hone : a.isValid ^^ b.isValid with
  | false => rfl
  | true => rw [matchesE164_comm hone]

/-! ## Probable matches -/

/-- The first number is not empty, and the second one ends with it. -/
def Ends (a b : PhoneNumber γ κ) : Prop := a.getNonEmpty ≠ [] ∧ a.getNonEmpty <:+ b.getNonEmpty

/-- The order of the numbers does not matter, and a probable match rests on an ending. -/
def OnEvidence (util : PhoneNumberUtil γ κ) (a b : PhoneNumber γ κ) : Prop :=
  a.match util b = b.match util a ∧ (a.match util b = .PROBABLE → Ends a b ∨ Ends b a)

/-- Different numbers of one length are both valid, or one of them is and they are the same in
its country. -/
def Telling (util : PhoneNumberUtil γ κ) (a b : PhoneNumber γ κ) : Prop :=
  a.getNonEmpty.length = b.getNonEmpty.length → a.getNonEmpty ≠ b.getNonEmpty →
    a.isValid ∧ b.isValid ∨
      (a.isValid ^^ b.isValid) = true ∧ matchesE164 util a b = true

/-- The last resort is only come to if nothing else is known of the numbers. -/
theorem match_eq_probable_iff : a.match util b = .PROBABLE ↔
    ¬ (a.isValid = false ∧ b.isValid = false ∧ a.get = b.get) ∧
      ¬ ((a.isValid ^^ b.isValid) = true ∧ matchesE164 util a b = true) ∧
      ¬ (a.isValid = true ∧ b.isValid = true) ∧
      isEnding a.getNonEmpty b.getNonEmpty = true := by
  rw [«match»]
  by_cases hsame : (!a.isValid && !b.isValid && a.get == b.get) = true
  · rw [if_pos hsame]
    simp only [Bool.and_eq_true, Bool.not_eq_true', beq_iff_eq] at hsame
    exact iff_of_false nofun fun h => h.1 ⟨hsame.1.1, hsame.1.2, hsame.2⟩
  · rw [if_neg hsame]
    simp only [Bool.and_eq_true, Bool.not_eq_true', beq_iff_eq, and_assoc] at hsame
    by_cases hone : ((a.isValid ^^ b.isValid) && matchesE164 util a b) = true
    · rw [if_pos hone]
      exact iff_of_false nofun fun h => h.2.1 (Bool.and_eq_true _ _ ▸ hone)
    · rw [if_neg hone]
      rw [Bool.and_eq_true] at hone
      by_cases hboth : (a.isValid && b.isValid) = true
      · rw [if_pos hboth]
        rw [Bool.and_eq_true] at hboth
        refine iff_of_false ?_ fun h => h.2.2.1 hboth
        cases util.isNumberMatch a.pbNumber b.pbNumber <;> nofun
      · rw [if_neg hboth]
        rw [Bool.and_eq_true] at hboth
        cases isEnding a.getNonEmpty b.getNonEmpty with
        | true => exact iff_of_true rfl ⟨hsame, hone, hboth, rfl⟩
        | false => exact iff_of_false nofun nofun

theorem getNonEmpty_of_invalid (h : a.isValid = false) : a.getNonEmpty = a.get := by
  rw [getNonEmpty, View.getNonEmpty]
  exact if_neg (ne_true_of_eq_false h)

theorem isEnding_ends (h : isEnding a.getNonEmpty b.getNonEmpty = true)
    (hlength : a.getNonEmpty.length = b.getNonEmpty.length → a.getNonEmpty = b.getNonEmpty) :
    Ends a b ∨ Ends b a := by
  rcases Nat.lt_trichotomy a.getNonEmpty.length b.getNonEmpty.length with hlt | heq | hlt
  · rw [isEnding_comm] at h
    exact .inl ((isEnding_of_lt hlt).1 h)
  · have hsame := hlength heq
    refine .inr ⟨(isEnding_of_length_eq heq).1 h, ?_⟩
    exact hsame ▸ List.suffix_refl _
  · exact .inr ((isEnding_of_lt hlt).1 h)

theorem eq_of_ends (h : Ends a b ∨ Ends b a)
    (hlength : a.getNonEmpty.length = b.getNonEmpty.length) : a.getNonEmpty = b.getNonEmpty := by
  rcases h with ⟨-, h⟩ | ⟨-, h⟩
  · exact h.eq_of_length hlength
  · exact (h.eq_of_length hlength.symm).symm

theorem match_on_evidence_iff (util : PhoneNumberUtil γ κ) (a b : PhoneNumber γ κ) :
    OnEvidence util a b ↔ Telling util a b := by
  rw [OnEvidence, and_iff_right match_comm, match_eq_probable_iff]
  constructor
  · intro h hlength hne
    by_contra hnot
    obtain ⟨hboth, hone⟩ := not_or.1 hnot
    refine hne (eq_of_ends (h ⟨fun ⟨ha, hb, hget⟩ => hne ?_, hone, hboth, ?_⟩) hlength)
    · rw [getNonEmpty_of_invalid ha, getNonEmpty_of_invalid hb, hget]
    · refine (isEnding_of_length_eq hlength).2 fun hnil => hne ?_
      rw [hnil] at hlength ⊢
      exact List.length_eq_zero_iff.1 hlength
  · intro h ⟨_, hone, hboth, hending⟩
    refine isEnding_ends hending fun hlength => ?_
    by_contra hne
    rcases h hlength hne with hboth' | hone'
    · exact hboth hboth'
    · exact hone hone'

/-- A library to which no number is valid. -/
def noneValid : PhoneNumberUtil Unit Unit where
  parseAndKeepRawInput _ _ := ()
  getRegionCodeForNumber _ := ()
  isValidNumber _ := false
  formatInOriginalFormat _ _ := []
  formatE164 _ := []
  isNumberMatch _ _ := .INVALID_NUMBER
  isNumberMatch_comm _ _ := rfl

/-- `456` and `789` are a probable match. -/
theorem equal_lengths_match :
    ¬ OnEvidence noneValid (ofText noneValid [0x34, 0x35, 0x36] ())
      (ofText noneValid [0x37, 0x38, 0x39] ()) := by
  intro h
  exact absurd (h.2 (by decide)) (by unfold Ends; decide)

end MuditaOS.Utils.PhoneNumber

import MuditaOS.Lib.Paging
import MuditaOS.Proofs.PhoneMatch
import MuditaOS.Utils.PhoneNumber
import Mathlib.Algebra.Ring.Nat

/-!
# The first match and the best one

The search ends at the first holder that matches well enough, whichever come behind it. An
empty number is not searched for at all, and an offset that has passed the end of its range
begins again.
-/

namespace MuditaOS.Utils.NumberHolderMatcher

open MuditaOS.Lib phonenumbers

variable {γ κ : Type*} {util : PhoneNumberUtil γ κ} {matcher : NumberHolderMatcher γ κ}
  {phoneNumber : PhoneNumber γ κ} {level : PhoneNumber.Match} {contactIDToIgnore : UInt32}
  {holders : List (NumberHolder γ κ)} {provider : PhoneNumber γ κ → UInt32 → UInt32 →
    List (NumberHolder γ κ)} {limit : UInt32} {best : NumberHolder γ κ}

/-- The pages of these holders, one page behind the other. -/
def Serves (provider : PhoneNumber γ κ → UInt32 → UInt32 → List (NumberHolder γ κ))
    (holders : List (NumberHolder γ κ)) : Prop :=
  ∀ number offset limit, provider number offset limit =
    (holders.drop offset.toNat).take limit.toNat

section

variable (util : PhoneNumberUtil γ κ) (phoneNumber : PhoneNumber γ κ) (level : PhoneNumber.Match)
  (contactIDToIgnore : UInt32) (holders : List (NumberHolder γ κ))

/-- The holder matches, and no other that does is a stronger match. -/
def Best (best : NumberHolder γ κ) : Prop :=
  best ∈ holders ∧ isMatch util phoneNumber level contactIDToIgnore best = true ∧
    ∀ holder ∈ holders, isMatch util phoneNumber level contactIDToIgnore holder = true →
      phoneNumber.match util holder.number ≤ phoneNumber.match util best.number

def NoMatch : Prop :=
  ∀ holder ∈ holders, isMatch util phoneNumber level contactIDToIgnore holder = false

/-- The search ends, with a best holder or, if there is no match, without one. -/
def FindsBest (provider : PhoneNumber γ κ → UInt32 → UInt32 → List (NumberHolder γ κ))
    (limit : UInt32) : Prop :=
  ∃ fuel result, (ofProvider provider limit).bestMatch util phoneNumber level contactIDToIgnore
      fuel = some result ∧
    match result with
    | some best => Best util phoneNumber level contactIDToIgnore holders best
    | none => NoMatch util phoneNumber level contactIDToIgnore holders

/-- The pages as they are asked for: the offsets are those of an `unsigned int`. -/
def pageAt (limit : UInt32) (k : Nat) : List (NumberHolder γ κ) :=
  (holders.drop (k * limit.toNat % 2 ^ 32)).take limit.toNat

/-- A number is searched for if there is a match at all. The first match on the pages is a
best one, or there is none and a page behind the first is empty. -/
def Fits (limit : UInt32) : Prop :=
  if phoneNumber.get = [] then NoMatch util phoneNumber level contactIDToIgnore holders
  else
    (∃ best, ComesFirst (isMatch util phoneNumber level contactIDToIgnore)
        (pageAt holders limit) best ∧
      Best util phoneNumber level contactIDToIgnore holders best) ∨
    NoMatch util phoneNumber level contactIDToIgnore holders ∧ ∃ k, pageAt holders limit (k + 1) = []

end

/-! ## The loop -/

theorem toNat_offset {k : Nat} : (UInt32.ofNat (k * limit.toNat)).toNat =
    k * limit.toNat % 2 ^ 32 := UInt32.toNat_ofNat

/-- The matcher after some pages. -/
def onPage (provider : PhoneNumber γ κ → UInt32 → UInt32 → List (NumberHolder γ κ))
    (limit : UInt32) (holders : List (NumberHolder γ κ)) (k : Nat) : NumberHolderMatcher γ κ :=
  ⟨pageAt holders limit k, provider, UInt32.ofNat (k * limit.toNat), limit⟩

theorem next_onPage (hserves : Serves provider holders) {k : Nat} :
    (onPage provider limit holders k).next phoneNumber =
      (!(pageAt holders limit (k + 1)).isEmpty, onPage provider limit holders (k + 1)) := by
  have hoffset : UInt32.ofNat (k * limit.toNat) + limit =
      UInt32.ofNat ((k + 1) * limit.toNat) := by
    rw [Nat.succ_mul, UInt32.ofNat_add, UInt32.ofNat_toNat]
  have hpage : provider phoneNumber (UInt32.ofNat ((k + 1) * limit.toNat)) limit =
      pageAt holders limit (k + 1) := by
    rw [hserves, toNat_offset, pageAt]
  simp only [next, onPage, hoffset, hpage]

theorem bestMatchLoop_onPage (hserves : Serves provider holders) {fuel k : Nat} :
    bestMatchLoop util phoneNumber level contactIDToIgnore fuel
        (onPage provider limit holders k) =
      searchPages (isMatch util phoneNumber level contactIDToIgnore) (pageAt holders limit)
        fuel k := by
  induction fuel generalizing k with
  | zero => rfl
  | succ fuel ih =>
      rw [bestMatchLoop, searchPages, next_onPage hserves]
      have hnumbers : (onPage provider limit holders k).numbers = pageAt holders limit k := rfl
      rw [hnumbers]
      cases (pageAt holders limit k).find? (isMatch util phoneNumber level contactIDToIgnore) with
      | some it => rfl
      | none =>
          by_cases hend : pageAt holders limit (k + 1) = []
          · simp only [if_pos hend, List.isEmpty_iff.2 hend, Bool.not_true]
          · simp only [if_neg hend, List.isEmpty_eq_false_iff.2 hend, Bool.not_false, ih]

theorem restartFor_ofProvider (hserves : Serves provider holders) :
    (ofProvider provider limit).restartFor phoneNumber = onPage provider limit holders 0 := by
  have hpage : provider phoneNumber 0 limit = pageAt holders limit 0 := by
    rw [hserves, pageAt, Nat.zero_mul, Nat.zero_mod]
    rfl
  have hzero : UInt32.ofNat (0 * limit.toNat) = 0 := by
    rw [Nat.zero_mul]
    rfl
  rw [onPage, hzero, ← hpage]
  rfl

theorem bestMatch_eq (hserves : Serves provider holders) (hget : phoneNumber.get ≠ [])
    {fuel : Nat} :
    (ofProvider provider limit).bestMatch util phoneNumber level contactIDToIgnore fuel =
      searchPages (isMatch util phoneNumber level contactIDToIgnore) (pageAt holders limit)
        fuel 0 := by
  rw [bestMatch, List.isEmpty_eq_false_iff.2 hget, if_neg Bool.false_ne_true,
    restartFor_ofProvider hserves, bestMatchLoop_onPage hserves]

/-! ## What is found -/

theorem mem_of_pageAt {k : Nat} (h : best ∈ pageAt holders limit k) : best ∈ holders :=
  List.mem_of_mem_drop (List.mem_of_mem_take h)

/-- The search finds a best holder exactly if the first that matches is one. -/
theorem best_match_best_iff (hserves : Serves provider holders) :
    FindsBest util phoneNumber level contactIDToIgnore holders provider limit ↔
      Fits util phoneNumber level contactIDToIgnore holders limit := by
  rw [Fits]
  by_cases hget : phoneNumber.get = []
  · rw [if_pos hget]
    constructor
    · intro ⟨fuel, result, hresult, h⟩
      rw [bestMatch, List.isEmpty_iff.2 hget, if_pos rfl] at hresult
      cases hresult
      exact h
    · intro h
      refine ⟨0, none, ?_, h⟩
      rw [bestMatch, List.isEmpty_iff.2 hget, if_pos rfl]
  · rw [if_neg hget]
    constructor
    · intro ⟨fuel, result, hresult, h⟩
      rw [bestMatch_eq hserves hget] at hresult
      have hended := searchPages_eq_some hresult
      cases result with
      | some best => exact .inl ⟨best, hended, h⟩
      | none =>
          obtain ⟨k, -, -, hend⟩ := hended
          exact .inr ⟨h, k, hend⟩
    · intro h
      rcases h with ⟨best, hfirst, hbest⟩ | ⟨hnone, k, hend⟩
      · obtain ⟨fuel, hfuel⟩ := hfirst.search
        exact ⟨fuel, some best, (bestMatch_eq hserves hget).trans hfuel, hbest⟩
      · have hpages : ∀ k, (pageAt holders limit k).find?
            (isMatch util phoneNumber level contactIDToIgnore) = none := fun k =>
          List.find?_eq_none.2 fun holder hholder =>
            ne_true_of_eq_false (hnone holder (mem_of_pageAt hholder))
        obtain ⟨fuel, hfuel⟩ := (comesToEnd_of_empty hpages hend).search
        exact ⟨fuel, none, (bestMatch_eq hserves hget).trans hfuel, hnone⟩

/-- Where the offset behind the last page is still an `unsigned int`, the first match on the
pages is that of the holders. -/
theorem fits_iff_first {k : Nat} (hlimit : 0 < limit.toNat)
    (hlast : holders.length ≤ (k + 1) * limit.toNat) (hrange : (k + 1) * limit.toNat < 2 ^ 32)
    (hget : phoneNumber.get ≠ []) :
    Fits util phoneNumber level contactIDToIgnore holders limit ↔
      ∀ best, holders.find? (isMatch util phoneNumber level contactIDToIgnore) = some best →
        Best util phoneNumber level contactIDToIgnore holders best := by
  have hsame : ∀ j ≤ k + 1, pageAt holders limit j = page holders limit.toNat j := fun j hj => by
    have hle : j * limit.toNat ≤ (k + 1) * limit.toNat := Nat.mul_le_mul_right _ hj
    rw [pageAt, page, Nat.mod_eq_of_lt (Nat.lt_of_le_of_lt hle hrange)]
  have hend : page holders limit.toNat (k + 1) = [] := (page_eq_nil_iff hlimit).2 hlast
  have hend' : pageAt holders limit (k + 1) = [] := (hsame _ (Nat.le_refl _)).trans hend
  have hfirst : ∀ best, ComesFirst (isMatch util phoneNumber level contactIDToIgnore)
      (pageAt holders limit) best ↔
        holders.find? (isMatch util phoneNumber level contactIDToIgnore) = some best := fun best =>
    ⟨fun h => (comesFirst_page_iff hlimit).1 (h.congr hend' fun j hj => hsame j (by omega)),
      fun h => ((comesFirst_page_iff hlimit).2 h).congr hend fun j hj =>
        (hsame j (by omega)).symm⟩
  rw [Fits, if_neg hget]
  constructor
  · intro h best hbest
    rcases h with ⟨best', hfirst', hbest'⟩ | ⟨hnone, -⟩
    · rw [(hfirst best').1 hfirst'] at hbest
      cases hbest
      exact hbest'
    · exact absurd (List.find?_some hbest) (ne_true_of_eq_false
        (hnone best (List.mem_of_find?_eq_some hbest)))
  · intro h
    cases hfind : holders.find? (isMatch util phoneNumber level contactIDToIgnore) with
    | some best => exact .inl ⟨best, (hfirst best).2 hfind, h best hfind⟩
    | none =>
        refine .inr ⟨fun holder hholder => ?_, k, hend'⟩
        exact Bool.eq_false_iff.2 (List.find?_eq_none.1 hfind holder hholder)

/-- The provider of a list of holders. -/
def listProvider (holders : List (NumberHolder γ κ)) :
    PhoneNumber γ κ → UInt32 → UInt32 → List (NumberHolder γ κ) :=
  fun _ offset limit => (holders.drop offset.toNat).take limit.toNat

/-- `123` and `23`, to no one of which a country is known. -/
def shortNumbers : NumberHolder Unit Unit × NumberHolder Unit Unit :=
  (⟨.ofText PhoneNumber.noneValid [0x31, 0x32, 0x33] (), 7⟩,
    ⟨.ofText PhoneNumber.noneValid [0x32, 0x33] (), 8⟩)

/-- The number itself is in front of its ending. -/
theorem exact_match_first :
    let holders := [shortNumbers.1, shortNumbers.2]
    FindsBest PhoneNumber.noneValid shortNumbers.1.number .PROBABLE 0 holders
      (listProvider holders) 1 := by
  intro holders
  refine (best_match_best_iff fun _ _ _ => rfl).2 ?_
  rw [Fits, if_neg (by decide)]
  refine .inl ⟨shortNumbers.1, ⟨0, passes_zero, rfl⟩, List.mem_cons_self, by decide,
    fun holder hholder _ => ?_⟩
  simp only [holders, List.mem_cons, List.not_mem_nil, or_false] at hholder
  rcases hholder with rfl | rfl
  · decide
  · decide

/-- The ending is in front of the number itself. -/
theorem weaker_match_first :
    let holders := [shortNumbers.2, shortNumbers.1]
    ¬ FindsBest PhoneNumber.noneValid shortNumbers.1.number .PROBABLE 0 holders
      (listProvider holders) 50 := by
  intro holders ⟨fuel, result, hresult, h⟩
  cases fuel with
  | zero => cases hresult
  | succ fuel =>
      obtain rfl : some shortNumbers.2 = result := Option.some.inj hresult
      exact absurd (h.2.2 shortNumbers.1 (List.mem_cons_of_mem _ List.mem_cons_self)
        (by decide)) (by decide)

end MuditaOS.Utils.NumberHolderMatcher

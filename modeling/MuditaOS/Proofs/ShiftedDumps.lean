import MuditaOS.Lib.Moves
import MuditaOS.Lib.Numeral
import MuditaOS.Proofs.RotatedNames

/-!
# Shifted dumps

The dumps are renamed one after another in the order of their names, so a dump arrives
under the next number unless the one that has that number is renamed later. Only where the
next number has more digits is it renamed before.
-/

/-! ## The names of crash dumps

What is behind the last dot of a dump's name is its number, or the extension, which counts
as zero. So do zero itself and what is no `int`: then the extension is put into the name
once more.
-/

namespace MuditaOS.Utils.Rotator

open MuditaOS.Lib

variable {front front' tail tail' : FilePath} {stem stem' text text' : FilePath} {k : Nat}

/-! ## The last dot -/

theorem rfind_last_dot (h : dot ∉ tail) :
    rfind [dot] (front ++ dot :: tail) none = some front.length := by
  rw [rfind, Option.getD_none, Nat.min_self]
  refine rfindAux_eq_some.2 ⟨?_, ?_, fun j hlt _ hocc => h ?_⟩
  · rw [List.length_append]
    omega
  · rw [occursAt_singleton, List.getElem?_append_right le_rfl, Nat.sub_self,
      List.getElem?_cons_zero]
  · rw [occursAt_singleton, List.getElem?_append_right (by omega),
      show j - front.length = j - front.length - 1 + 1 by omega, List.getElem?_cons_succ] at hocc
    exact List.mem_of_getElem? hocc

theorem append_dot_inj (h : dot ∉ tail) (h' : dot ∉ tail')
    (heq : front ++ dot :: tail = front' ++ dot :: tail') : front = front' ∧ tail = tail' := by
  have hlength : front.length = front'.length := by
    rw [← Option.some.injEq, ← rfind_last_dot h, ← rfind_last_dot h', heq]
  obtain ⟨hfront, htail⟩ := List.append_inj heq hlength
  exact ⟨hfront, (List.cons.inj htail).2⟩

theorem getFileNumber_append (h : dot ∉ tail) :
    getFileNumber (front ++ dot :: tail) = .ofInt (toNumeric tail) := by
  rw [getFileNumber, rfind_last_dot h]
  simp only [List.drop_length_add_append, List.drop_succ_cons, List.drop_zero]

theorem incrementFileNumber_append (h : dot ∉ tail) :
    incrementFileNumber (front ++ dot :: tail) = front ++ dot ::
      if toNumeric tail ≠ 0 then
        signedDecimal asciiDigit (Int.bmod (toNumeric tail + 1) (2 ^ 32))
      else hexZero := by
  rw [incrementFileNumber, rfind_last_dot h]
  simp only [List.drop_length_add_append, List.take_length_add_append, List.drop_succ_cons,
    List.drop_zero, List.take_succ_cons, List.take_zero, List.append_assoc, List.cons_append,
    List.nil_append]

/-! ## Dumps -/

/-- `hex`. -/
def hex : FilePath := [0x68, 0x65, 0x78]

/-- A file `stem.hex` or `stem.hex.k`. -/
structure Dump where
  stem : FilePath
  number : Option Nat

def numbered (stem text : FilePath) : FilePath := (stem ++ dot :: hex) ++ dot :: text

def Dump.path : Dump → FilePath
  | ⟨stem, none⟩ => stem ++ dot :: hex
  | ⟨stem, some k⟩ => numbered stem (decimal asciiDigit k)

theorem dot_notMem_hex : dot ∉ hex := by decide

theorem dot_notMem_decimal : dot ∉ decimal asciiDigit k := by
  intro hmem
  have hdigit : ∀ d < 10, asciiDigit d ≠ dot := by decide
  obtain ⟨d, hd, heq⟩ := List.mem_map.1 hmem
  exact hdigit d (decimalDigits_lt d hd) heq

theorem dot_notMem_signedDecimal {n : Int} : dot ∉ signedDecimal asciiDigit n := by
  intro hmem
  rcases List.mem_append.1 hmem with hsign | hdigits
  · split at hsign
    · exact absurd (List.mem_singleton.1 hsign) (by decide)
    · exact List.not_mem_nil hsign
  · exact dot_notMem_decimal hdigits

theorem decimal_inj {m : Nat} (h : decimal asciiDigit k = decimal asciiDigit m) : k = m := by
  have hread := congrArg (strtol 10) h
  rw [writes_asciiDigit.strtol_decimal, writes_asciiDigit.strtol_decimal] at hread
  exact Int.ofNat.inj (Option.some.inj hread)

theorem signedDecimal_natCast : signedDecimal asciiDigit k = decimal asciiDigit k := by
  rw [signedDecimal, if_neg (by omega), List.nil_append, Int.natAbs_natCast]

theorem hex_ne_decimal : hex ≠ decimal asciiDigit k := by
  intro h
  have hread := congrArg (strtol 10) h
  rw [writes_asciiDigit.strtol_decimal] at hread
  exact absurd hread.symm (Option.some_ne_none _)

theorem numbered_inj (h : dot ∉ text) (h' : dot ∉ text')
    (heq : numbered stem text = numbered stem' text') : stem = stem' ∧ text = text' := by
  obtain ⟨hstem, htext⟩ := append_dot_inj h h' heq
  exact ⟨List.append_cancel_right hstem, htext⟩

theorem Dump.path_inj {d e : Dump} (h : d.path = e.path) : d = e := by
  obtain ⟨stem, _ | k⟩ := d
  · obtain ⟨stem', _ | m⟩ := e
    · exact congrArg (Dump.mk · none) (List.append_cancel_right h)
    · exact absurd (append_dot_inj dot_notMem_hex dot_notMem_decimal h).2 hex_ne_decimal
  · obtain ⟨stem', _ | m⟩ := e
    · exact absurd (append_dot_inj dot_notMem_decimal dot_notMem_hex h).2.symm hex_ne_decimal
    · obtain ⟨rfl, htext⟩ := numbered_inj dot_notMem_decimal dot_notMem_decimal h
      rw [decimal_inj htext]

/-! ## Their numbers -/

theorem toNumeric_hex : toNumeric hex = 0 := by decide

theorem toNumeric_decimal :
    toNumeric (decimal asciiDigit k) = if k < 2 ^ 31 then (k : Int) else 0 := by
  rw [toNumeric, stoSigned, writes_asciiDigit.strtol_decimal]
  split
  · next hlt =>
      rw [Option.filter_some, if_pos, Option.getD_some]
      simp only [decide_eq_true_eq]
      omega
  · next hge =>
      rw [Option.filter_some, if_neg, Option.getD_none]
      simp only [decide_eq_true_eq]
      omega

/-- The number as `rotateFiles` sees it. -/
def Dump.counted : Dump → Nat
  | ⟨_, none⟩ => 0
  | ⟨_, some k⟩ => if k < 2 ^ 31 then k else 0

theorem getFileNumber_path {d : Dump} : (getFileNumber d.path).toNat = d.counted := by
  obtain ⟨stem, _ | k⟩ := d
  · rw [Dump.path, getFileNumber_append dot_notMem_hex, toNumeric_hex]
    rfl
  · rw [Dump.path, numbered, getFileNumber_append dot_notMem_decimal, toNumeric_decimal,
      Dump.counted]
    split
    · next hlt =>
        rw [UInt32.ofInt, UInt32.toNat_ofNat']
        omega
    · rfl

theorem append_hexZero : front ++ dot :: hexZero = numbered front (decimal asciiDigit 0) := by
  rw [numbered, List.append_assoc]
  rfl

/-- Where a dump is moved. -/
theorem incrementFileNumber_path {d : Dump} : incrementFileNumber d.path =
    if d.counted ≠ 0 then
      numbered d.stem (signedDecimal asciiDigit (Int.bmod (d.counted + 1) (2 ^ 32)))
    else
      match d.number with
      | none => numbered d.stem (decimal asciiDigit 0)
      | some _ => numbered (d.stem ++ dot :: hex) (decimal asciiDigit 0) := by
  obtain ⟨stem, _ | k⟩ := d
  · rw [Dump.path, incrementFileNumber_append dot_notMem_hex, toNumeric_hex, Dump.counted,
      if_neg (by omega), if_neg (by omega), append_hexZero]
  · rw [Dump.path, numbered, incrementFileNumber_append dot_notMem_decimal, toNumeric_decimal,
      Dump.counted]
    split
    · next hlt =>
        by_cases hzero : k = 0
        · subst hzero
          rw [if_neg (by omega), if_neg (by omega), append_hexZero]
        · rw [if_pos (by omega), if_pos hzero, numbered]
    · rw [if_neg (by omega), if_neg (by omega), append_hexZero]

end MuditaOS.Utils.Rotator

namespace MuditaOS.Utils.Rotator

open MuditaOS.Lib

variable {α : Type*} {maxRotationFilesCount : UInt32} {faults : Faults} {dir dir' : Directory α}
  {dumps : List Dump} {d e : Dump} {k : Nat} {stem : FilePath}

/-! ## What is left of a dump -/

/-- The next number; a dump without one gets the number zero. -/
def Dump.shift : Dump → Dump
  | ⟨stem, none⟩ => ⟨stem, some 0⟩
  | ⟨stem, some k⟩ => ⟨stem, some (k + 1)⟩

/-- The dump has no number, or one below the limit. -/
def Dump.Stays (maxRotationFilesCount : UInt32) (d : Dump) : Prop :=
  ∀ k, d.number = some k → k < maxRotationFilesCount.toNat

/-- Each dump that stays has the next number, no other file is left, and none has been
overwritten. -/
structure Shifted (maxRotationFilesCount : UInt32) (dumps : List Dump)
    (dir dir' : Directory α) : Prop where
  moved : ∀ d ∈ dumps, d.Stays maxRotationFilesCount →
    dir'.files d.shift.path = dir.files d.path
  left : ∀ p, (dir'.files p).isSome →
    ∃ d ∈ dumps, d.Stays maxRotationFilesCount ∧ p = d.shift.path
  overwritten : dir'.overwritten = dir.overwritten

/-- A number below the limit is neither zero nor the last of an `int`, and the next one is
free, or has more digits. A number from the limit on is an `int`. -/
def Dump.Fits (maxRotationFilesCount : UInt32) (dumps : List Dump) (d : Dump) : Prop :=
  match d.number with
  | none => 0 < maxRotationFilesCount.toNat
  | some k =>
      if k < maxRotationFilesCount.toNat then
        0 < k ∧ k + 1 < 2 ^ 31 ∧ (⟨d.stem, some (k + 1)⟩ ∈ dumps → PowerOfTen (k + 1))
      else maxRotationFilesCount.toNat = 0 ∨ k < 2 ^ 31

theorem Dump.fits_below (hk : k < maxRotationFilesCount.toNat) :
    Dump.Fits maxRotationFilesCount dumps ⟨stem, some k⟩ ↔
      0 < k ∧ k + 1 < 2 ^ 31 ∧ (⟨stem, some (k + 1)⟩ ∈ dumps → PowerOfTen (k + 1)) :=
  iff_of_eq (if_pos hk)

theorem Dump.fits_from (hk : ¬ k < maxRotationFilesCount.toNat) :
    Dump.Fits maxRotationFilesCount dumps ⟨stem, some k⟩ ↔
      maxRotationFilesCount.toNat = 0 ∨ k < 2 ^ 31 :=
  iff_of_eq (if_neg hk)

/-! ## The renames as moves -/

/-- Where the code moves a file, if it does not remove it. -/
def target (maxRotationFilesCount : UInt32) (path : FilePath) : Option FilePath :=
  if maxRotationFilesCount ≤ getFileNumber path then none else some (incrementFileNumber path)

theorem rotateFiles_eq {crashdumps : List FilePath}
    (h : rotateFiles maxRotationFilesCount faults crashdumps dir = (true, dir')) :
    dir'.files = (moveAll (target maxRotationFilesCount) crashdumps dir.files).1 ∧
      dir'.overwritten = dir.overwritten ++
        (moveAll (target maxRotationFilesCount) crashdumps dir.files).2 := by
  induction crashdumps generalizing dir with
  | nil =>
      obtain ⟨-, rfl⟩ := Prod.mk.inj h
      exact ⟨rfl, (List.append_nil _).symm⟩
  | cons crashdump crashdumps ih =>
      rw [rotateFiles] at h
      split at h
      · next hlimit =>
          split at h
          · cases h
          · next next hremove =>
              obtain ⟨hfiles, hoverwritten⟩ := Directory.remove_eq_some hremove
              have hclear : next.files = clear dir.files crashdump := funext hfiles
              have htarget : target maxRotationFilesCount crashdump = none := if_pos hlimit
              rw [moveAll_cons_none htarget, ← hclear, ← hoverwritten]
              exact ih h
      · next hlimit =>
          split at h
          · cases h
          · next next hrename =>
              obtain ⟨-, hfiles, hoverwritten⟩ := Directory.rename_eq_some hrename
              have hmove : next.files =
                  move dir.files crashdump (incrementFileNumber crashdump) := funext hfiles
              have htarget : target maxRotationFilesCount crashdump =
                  some (incrementFileNumber crashdump) := if_neg hlimit
              rw [moveAll_cons_some htarget, ← hmove, ← List.append_assoc, ← hoverwritten]
              exact ih h

/-! ## Where dumps are moved -/

theorem Dump.counted_of_lt (h : k < 2 ^ 31) : Dump.counted ⟨stem, some k⟩ = k := if_pos h

theorem Dump.counted_lt : d.counted < 2 ^ 31 := by
  obtain ⟨stem, _ | k⟩ := d
  · rw [Dump.counted]
    omega
  · rw [Dump.counted]
    split <;> omega

theorem Dump.number_eq_of_counted (h : d.counted ≠ 0) : d.number = some d.counted := by
  obtain ⟨stem, _ | k⟩ := d
  · exact absurd rfl h
  · rw [Dump.counted] at h ⊢
    split at h
    · next hlt => rw [if_pos hlt]
    · exact absurd rfl h

theorem target_path : target maxRotationFilesCount d.path =
    if maxRotationFilesCount.toNat ≤ d.counted then none
    else some (incrementFileNumber d.path) := by
  simp only [target, UInt32.le_iff_toNat_le, getFileNumber_path]

/-- A dump without a number gets the number zero, -/
theorem target_none (hmax : 0 < maxRotationFilesCount.toNat) :
    target maxRotationFilesCount (Dump.path ⟨stem, none⟩) = some (Dump.path ⟨stem, some 0⟩) := by
  rw [target_path, incrementFileNumber_path, Dump.counted, if_neg (by omega), if_neg (by omega)]
  rfl

/-- and so does one whose number is no `int`, behind its extension. -/
theorem target_uncounted (hmax : 0 < maxRotationFilesCount.toNat) (hk : ¬ k < 2 ^ 31) :
    target maxRotationFilesCount (Dump.path ⟨stem, some k⟩) =
      some (Dump.path ⟨stem ++ dot :: hex, some 0⟩) := by
  have hcounted : Dump.counted ⟨stem, some k⟩ = 0 := if_neg hk
  rw [target_path, incrementFileNumber_path, hcounted, if_neg (by omega), if_neg (by omega)]
  rfl

/-- Only a positive number leads to the next one. -/
theorem eq_of_target_eq
    (h : target maxRotationFilesCount d.path = some (Dump.path ⟨stem, some (k + 1)⟩)) :
    d = ⟨stem, some k⟩ ∧ 0 < k ∧ k + 1 < 2 ^ 31 := by
  rw [target_path] at h
  split at h
  · cases h
  · replace h := Option.some.inj h
    rw [incrementFileNumber_path, Dump.path] at h
    split at h
    · next hcounted =>
        obtain ⟨hstem, htext⟩ := numbered_inj dot_notMem_signedDecimal dot_notMem_decimal h
        have hread := congrArg (strtol 10) htext
        rw [writes_asciiDigit.strtol_signedDecimal, writes_asciiDigit.strtol_decimal] at hread
        have hbmod := Option.some.inj hread
        have hlt := @Dump.counted_lt d
        have hnumber := Dump.number_eq_of_counted hcounted
        by_cases hlast : d.counted + 1 < 2 ^ 31
        · rw [Int.bmod_eq_of_le (by omega) (by omega)] at hbmod
          obtain rfl : d.counted = k := by omega
          exact ⟨congr (congrArg Dump.mk hstem) hnumber, by omega, hlast⟩
        · have hwrap : Int.bmod ((d.counted : Int) + 1) (2 ^ 32) = - 2 ^ 31 := by
            rw [show (d.counted : Int) + 1 = 2 ^ 31 by omega]
            rfl
          omega
    · split at h
      · exact absurd (decimal_inj (numbered_inj dot_notMem_decimal dot_notMem_decimal h).2)
          (by omega)
      · exact absurd (decimal_inj (numbered_inj dot_notMem_decimal dot_notMem_decimal h).2)
          (by omega)

theorem target_of_fits (h : d.Fits maxRotationFilesCount dumps) :
    target maxRotationFilesCount d.path = some d.shift.path ∧ d.Stays maxRotationFilesCount ∨
      target maxRotationFilesCount d.path = none ∧ ¬ d.Stays maxRotationFilesCount := by
  obtain ⟨stem, _ | k⟩ := d
  · replace h : 0 < maxRotationFilesCount.toNat := h
    refine .inl ⟨?_, fun k hk => absurd hk (Option.some_ne_none k).symm⟩
    exact target_none h
  · by_cases hk : k < maxRotationFilesCount.toNat
    · obtain ⟨hpos, hlast, -⟩ := (Dump.fits_below hk).1 h
      refine .inl ⟨?_, fun m hm => Option.some.inj hm ▸ hk⟩
      rw [target_path, incrementFileNumber_path, Dump.counted_of_lt (by omega),
        if_neg (by omega), if_pos (by omega), Int.bmod_eq_of_le (by omega) (by omega),
        ← Int.natCast_succ, signedDecimal_natCast]
      rfl
    · refine .inr ⟨?_, fun hstays => hk (hstays k rfl)⟩
      rw [target_path, if_pos]
      rcases (Dump.fits_from hk).1 h with hzero | hlt
      · omega
      · rw [Dump.counted_of_lt hlt]
        omega

/-! ## The order of the names -/

theorem numbered_lt {text text' : FilePath} (h : Before text text') :
    numbered stem text < numbered stem text' :=
  ((h.append_left [dot]).append_left (stem ++ dot :: hex)).lt

/-- The next number is in front only if it has more digits. -/
theorem path_shift_lt (hk : 0 < k) :
    PowerOfTen (k + 1) ∧ Dump.path ⟨stem, some (k + 1)⟩ < Dump.path ⟨stem, some k⟩ ∨
      ¬ PowerOfTen (k + 1) ∧ Dump.path ⟨stem, some k⟩ < Dump.path ⟨stem, some (k + 1)⟩ :=
  (decimal_succ asciiDigit_lt hk).imp (And.imp_right numbered_lt) (And.imp_right numbered_lt)

theorem Dump.shift_inj (h : d.shift = e.shift) : d = e := by
  obtain ⟨stem, _ | k⟩ := d
  · obtain ⟨stem', _ | m⟩ := e
    · cases h
      rfl
    · cases h
  · obtain ⟨stem', _ | m⟩ := e
    · cases h
    · cases h
      rfl

/-- Of two dumps that fit, the one that is renamed first is out of the way of the other. -/
theorem apart_of_fits (hfits : ∀ d ∈ dumps, d.Fits maxRotationFilesCount dumps) (hd : d ∈ dumps)
    (he : e ∈ dumps) (hlt : d.path < e.path) :
    Apart (target maxRotationFilesCount) d.path e.path := by
  intro dest hdest
  rcases target_of_fits (hfits d hd) with ⟨htarget, hstays⟩ | ⟨htarget, -⟩
  · obtain rfl := Option.some.inj (htarget.symm.trans hdest)
    constructor
    · intro heq
      obtain rfl := Dump.path_inj heq
      have hfit := hfits d hd
      obtain ⟨stem, _ | k⟩ := d
      · exact absurd ((Dump.fits_below hfit).1 (hfits _ he)).1 (lt_irrefl 0)
      · obtain ⟨hpos, -, hnext⟩ := (Dump.fits_below (hstays k rfl)).1 hfit
        rcases path_shift_lt hpos with ⟨-, hgt⟩ | ⟨hnot, -⟩
        · exact List.lt_asymm hlt hgt
        · exact hnot (hnext he)
    · intro hsame
      rcases target_of_fits (hfits e he) with ⟨htarget', -⟩ | ⟨htarget', -⟩
      · have heq := Dump.path_inj (Option.some.inj (htarget'.symm.trans hsame))
        exact List.lt_irrefl _ (Dump.shift_inj heq ▸ hlt)
      · rw [htarget'] at hsame
        cases hsame
  · rw [htarget] at hdest
    cases hdest

/-! ## All dumps -/

theorem nodup_of_sorted (hsorted : (dumps.map Dump.path).Pairwise (· < ·)) :
    (dumps.map Dump.path).Nodup :=
  hsorted.imp (S := fun p q => p ≠ q) fun hlt heq => List.lt_irrefl _ (heq ▸ hlt)

theorem shifted_of_fits (hsorted : (dumps.map Dump.path).Pairwise (· < ·))
    (hfiles : ∀ p, (dir.files p).isSome ↔ p ∈ dumps.map Dump.path)
    (h : rotateFiles maxRotationFilesCount faults (dumps.map Dump.path) dir = (true, dir'))
    (hfits : ∀ d ∈ dumps, d.Fits maxRotationFilesCount dumps) :
    Shifted maxRotationFilesCount dumps dir dir' := by
  obtain ⟨hmoved, hoverwritten⟩ := rotateFiles_eq h
  have hnodup := nodup_of_sorted hsorted
  have hapart : (dumps.map Dump.path).Pairwise (Apart (target maxRotationFilesCount)) :=
    List.pairwise_map.2 <| (List.pairwise_map.1 hsorted).imp_of_mem fun hd he hlt =>
      apart_of_fits hfits hd he hlt
  have hlost := (moveAll_lost_eq_nil_iff hnodup fun p hp => (hfiles p).2 hp).2
    ⟨hapart, fun _ _ dest _ => by
      by_cases hdest : dest ∈ dumps.map Dump.path
      · exact .inl hdest
      · exact .inr (Option.not_isSome_iff_eq_none.1 (mt (hfiles dest).1 hdest))⟩
  refine ⟨fun d hd hstays => ?_, fun p hp => ?_, ?_⟩
  · rcases target_of_fits (hfits d hd) with ⟨htarget, -⟩ | ⟨-, hnot⟩
    · rw [hmoved, moveAll_moved hnodup hapart (List.mem_map_of_mem hd) htarget]
    · exact absurd hstays hnot
  · rw [hmoved] at hp
    rcases moveAll_left hp with ⟨key, hkey, htarget⟩ | ⟨hnot, hsome⟩
    · obtain ⟨d, hd, rfl⟩ := List.mem_map.1 hkey
      rcases target_of_fits (hfits d hd) with ⟨htarget', hstays⟩ | ⟨htarget', -⟩
      · exact ⟨d, hd, hstays, Option.some.inj (htarget.symm.trans htarget')⟩
      · rw [htarget'] at htarget
        cases htarget
    · exact absurd ((hfiles p).1 hsome) hnot
  · rw [hoverwritten, hlost, List.append_nil]

/-- Of two members of the list, one is related to the other. -/
theorem pairwise_or {β : Type*} {r : β → β → Prop} {l : List β} {a b : β} (h : l.Pairwise r)
    (ha : a ∈ l) (hb : b ∈ l) (hne : a ≠ b) : r a b ∨ r b a := by
  have hsymm : Std.Symm fun a b => r a b ∨ r b a := ⟨fun _ _ => Or.symm⟩
  exact (h.imp Or.inl : l.Pairwise fun a b => r a b ∨ r b a).forall ha hb hne

theorem fits_of_shifted (hsorted : (dumps.map Dump.path).Pairwise (· < ·))
    (hfiles : ∀ p, (dir.files p).isSome ↔ p ∈ dumps.map Dump.path)
    (h : rotateFiles maxRotationFilesCount faults (dumps.map Dump.path) dir = (true, dir'))
    (hshifted : Shifted maxRotationFilesCount dumps dir dir') :
    ∀ d ∈ dumps, d.Fits maxRotationFilesCount dumps := by
  obtain ⟨hmoved, hoverwritten⟩ := rotateFiles_eq h
  have hnodup := nodup_of_sorted hsorted
  have hlost := List.append_right_eq_self.1 (hoverwritten.symm.trans hshifted.overwritten)
  have hapart := ((moveAll_lost_eq_nil_iff hnodup fun p hp => (hfiles p).2 hp).1 hlost).1
  have hsome : ∀ d ∈ dumps, (dir.files d.path).isSome := fun d hd =>
    (hfiles d.path).2 (List.mem_map_of_mem hd)
  have harrived : ∀ d ∈ dumps, d.Stays maxRotationFilesCount →
      ∃ e ∈ dumps, target maxRotationFilesCount e.path = some d.shift.path := by
    intro d hd hstays
    have hleft := hsome d hd
    rw [← hshifted.moved d hd hstays, hmoved] at hleft
    rcases moveAll_left hleft with ⟨key, hkey, htarget⟩ | ⟨hnot, hhere⟩
    · obtain ⟨e, he, rfl⟩ := List.mem_map.1 hkey
      exact ⟨e, he, htarget⟩
    · exact absurd ((hfiles _).1 hhere) hnot
  intro d hd
  obtain ⟨stem, _ | k⟩ := d
  · obtain ⟨e, -, htarget⟩ := harrived _ hd fun k hk => absurd hk (Option.some_ne_none k).symm
    rw [target_path] at htarget
    split at htarget
    · cases htarget
    · exact Nat.zero_lt_of_lt (Nat.lt_of_not_le ‹_›)
  · by_cases hk : k < maxRotationFilesCount.toNat
    · obtain ⟨e, -, htarget⟩ := harrived _ hd fun m hm => Option.some.inj hm ▸ hk
      obtain ⟨rfl, hpos, hlast⟩ := eq_of_target_eq htarget
      refine (Dump.fits_below hk).2 ⟨hpos, hlast, fun hnext => ?_⟩
      -- otherwise this dump is renamed onto the next one, which is still there
      rcases path_shift_lt hpos with ⟨hpower, -⟩ | ⟨-, hlt⟩
      · exact hpower
      · rcases pairwise_or (hsorted.and hapart) (List.mem_map_of_mem hd)
          (List.mem_map_of_mem hnext) fun heq => List.lt_irrefl _ (heq ▸ hlt) with
          ⟨-, hout⟩ | ⟨hgt, -⟩
        · exact absurd rfl (hout _ htarget).1
        · exact absurd hgt (List.lt_asymm hlt)
    · refine (Dump.fits_from hk).2 (Classical.or_iff_not_imp_left.2 fun hmax => ?_)
      by_contra hge
      have hpositive : 0 < maxRotationFilesCount.toNat := Nat.pos_of_ne_zero hmax
      have htarget := @target_uncounted _ _ stem hpositive hge
      have hcontent : dir'.files (Dump.path ⟨stem ++ dot :: hex, some 0⟩) =
          dir.files (Dump.path ⟨stem, some k⟩) := by
        rw [hmoved, moveAll_moved hnodup hapart (List.mem_map_of_mem hd) htarget]
      obtain ⟨e, he, -, heq⟩ := hshifted.left _ (hcontent ▸ hsome _ hd)
      -- only a dump without a number may be there, and that is renamed to the same name
      obtain ⟨stem', _ | m⟩ := e
      · obtain rfl : stem ++ dot :: hex = stem' := congrArg Dump.stem (Dump.path_inj heq)
        have htarget' := @target_none _ (stem ++ dot :: hex) hpositive
        rcases pairwise_or hapart (List.mem_map_of_mem hd) (List.mem_map_of_mem he) fun hsame =>
          Option.some_ne_none k (congrArg Dump.number (Dump.path_inj hsame)) with hout | hout
        · exact (hout _ htarget).2 htarget'
        · exact (hout _ htarget').2 htarget
      · have hnumber := Option.some.inj (congrArg Dump.number (Dump.path_inj heq))
        omega

/-- The dumps are shifted by one exactly if each of them fits, whichever calls would have
failed after the last one. -/
theorem dumps_shifted_iff (hsorted : (dumps.map Dump.path).Pairwise (· < ·))
    (hfiles : ∀ p, (dir.files p).isSome ↔ p ∈ dumps.map Dump.path)
    (h : rotateFiles maxRotationFilesCount faults (dumps.map Dump.path) dir = (true, dir')) :
    Shifted maxRotationFilesCount dumps dir dir' ↔
      ∀ d ∈ dumps, d.Fits maxRotationFilesCount dumps :=
  ⟨fits_of_shifted hsorted hfiles h, shifted_of_fits hsorted hfiles h⟩

/-- The directory of the dumps, each of which contains its own name. -/
def dumpDirectory (dumps : List Dump) : Directory FilePath where
  files p := (dumps.map Dump.path).find? fun path => path == p

theorem isSome_dumpDirectory {p : FilePath} :
    ((dumpDirectory dumps).files p).isSome ↔ p ∈ dumps.map Dump.path := by
  have hfile : (dumpDirectory dumps).files p =
      (dumps.map Dump.path).find? fun path => path == p := rfl
  rw [hfile, List.find?_isSome]
  constructor
  · intro ⟨path, hpath, heq⟩
    exact beq_iff_eq.1 heq ▸ hpath
  · intro hp
    exact ⟨p, hp, beq_self_eq_true p⟩

/-- `a.hex.9`, `a.hex.10` and `b.hex`. -/
theorem dumps_shifted_ten :
    let dumps : List Dump := [⟨[0x61], some 10⟩, ⟨[0x61], some 9⟩, ⟨[0x62], none⟩]
    Shifted 20 dumps (dumpDirectory dumps)
      (rotateFiles 20 Faults.none (dumps.map Dump.path) (dumpDirectory dumps)).2 := by
  intro dumps
  refine (dumps_shifted_iff (by decide) (fun _ => isSome_dumpDirectory)
    (Prod.ext (by decide) rfl)).2 ?_
  intro d hd
  simp only [dumps, List.mem_cons, List.not_mem_nil, or_false] at hd
  rcases hd with rfl | rfl | rfl
  · exact (Dump.fits_below (by decide)).2 ⟨by decide, by decide, by simp [dumps]⟩
  · exact (Dump.fits_below (by decide)).2 ⟨by decide, by decide, fun _ => ⟨1, rfl⟩⟩
  · exact Nat.succ_pos 19

/-- `p.hex.1` is renamed onto `p.hex.2`, which is not renamed yet. -/
theorem first_dump_lost :
    let dumps : List Dump := [⟨[0x70], some 1⟩, ⟨[0x70], some 2⟩]
    let rotated := rotateFiles 5 Faults.none (dumps.map Dump.path) (dumpDirectory dumps)
    rotated.1 = true ∧ ¬ Shifted 5 dumps (dumpDirectory dumps) rotated.2 := by
  intro dumps rotated
  exact ⟨by decide, fun h => absurd h.overwritten (by decide)⟩

end MuditaOS.Utils.Rotator

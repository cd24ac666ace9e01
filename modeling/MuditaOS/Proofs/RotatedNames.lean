import MuditaOS.Utils.Rotator

/-!
# The names of rotated files

A rotated file is named after the extension with a number behind it. The numbers are told
apart as an `int` is, and no name is that of the file itself, which has one dot in its
extension at most.
-/

namespace MuditaOS.Utils.Rotator

open MuditaOS.Lib

variable {path : FilePath} {extension : FilePath} {i j : Nat}

theorem occursAt_singleton {c : UInt8} {s : List UInt8} {k : Nat} :
    OccursAt [c] s k ↔ s[k]? = some c := by
  rw [OccursAt, ← List.head?_drop]
  cases s.drop k with
  | nil => simp
  | cons d rest => simp [List.cons_prefix_cons, eq_comm]

/-- Behind the last dot there is none. -/
theorem rfind_dot_eq_some {s : List UInt8} {k : Nat} (h : rfind [dot] s none = some k) :
    ∃ rest, s.drop k = dot :: rest ∧ dot ∉ rest := by
  rw [rfind, Option.getD_none, Nat.min_self] at h
  obtain ⟨-, hocc, hlast⟩ := rfindAux_eq_some.1 h
  rw [occursAt_singleton] at hocc
  have hlt := (List.getElem?_eq_some_iff.1 hocc).1
  refine ⟨s.drop (k + 1), ?_, fun hin => ?_⟩
  · rw [List.drop_eq_getElem_cons hlt, (List.getElem?_eq_some_iff.1 hocc).2]
  · obtain ⟨m, hm⟩ := List.getElem?_of_mem hin
    rw [List.getElem?_drop] at hm
    have hm' := (List.getElem?_eq_some_iff.1 hm).1
    exact hlast (k + 1 + m) (by omega) (by omega) (occursAt_singleton.2 hm)

theorem filename_suffix : filename path <:+ path := by
  rw [filename, ← List.reverse_prefix, List.reverse_reverse]
  exact List.takeWhile_prefix _

/-- The extension of a path is empty, or its only dot comes first. -/
theorem extension_spec : ∃ front own, path = front ++ own ∧
    path.take (path.length - extensionLength path) = front ∧
    (own = [] ∨ ∃ rest, own = dot :: rest ∧ dot ∉ rest) := by
  have hnone : ∃ front own, path = front ++ own ∧ path.take (path.length - 0) = front ∧
      (own = [] ∨ ∃ rest, own = dot :: rest ∧ dot ∉ rest) :=
    ⟨path, [], (List.append_nil path).symm, List.take_length, .inl rfl⟩
  rw [extensionLength]
  split
  · exact hnone
  · split
    · exact hnone
    · next pos hpos =>
        split
        · exact hnone
        · obtain ⟨dirs, hdirs⟩ := @filename_suffix path
          obtain ⟨rest, hrest, hdot⟩ := rfind_dot_eq_some hpos
          have hlt : pos < (filename path).length := by
            have hlen := congrArg List.length hrest
            rw [List.length_drop, List.length_cons] at hlen
            omega
          have hcut : path.length - ((filename path).length - pos) = dirs.length + pos := by
            have hlen := congrArg List.length hdirs
            rw [List.length_append] at hlen
            omega
          refine ⟨dirs ++ (filename path).take pos, (filename path).drop pos, ?_, ?_,
            .inr ⟨rest, hrest, hdot⟩⟩
          · rw [List.append_assoc, List.take_append_drop, hdirs]
          · rw [hcut]
            conv => lhs; rw [← hdirs]
            exact List.take_length_add_append pos

/-- The name of a rotated file up to its number. -/
theorem rotatedPath_eq (hext : extension ≠ []) : ∃ front own, path = front ++ own ∧
    (own = [] ∨ ∃ rest, own = dot :: rest ∧ dot ∉ rest) ∧
    ∀ i, getRotatedFilePath extension path i =
      front ++ (if extension.head? = some dot then [] else [dot]) ++ extension ++ [dot] ++
        signedDecimal asciiDigit (Int.bmod i (2 ^ 32)) := by
  obtain ⟨front, own, hpath, htake, hown⟩ := @extension_spec path
  refine ⟨front, own, hpath, hown, fun i => ?_⟩
  have hhead : (getRotatedFileExtension extension (Int.bmod i (2 ^ 32))).head? =
      extension.head? := by
    obtain ⟨c, rest, rfl⟩ := List.exists_cons_of_ne_nil hext
    rfl
  rw [getRotatedFilePath, replaceExtension, htake, hhead, getRotatedFileExtension]
  simp only [List.append_assoc]
  congr 2
  by_cases hdot : extension.head? = some dot
  · rw [if_pos hdot, if_neg fun h => h.2 hdot]
  · rw [if_neg hdot, if_pos ⟨List.append_ne_nil_of_left_ne_nil hext _, hdot⟩]

/-- Numbers below the modulus are told apart by their signed residues. -/
theorem bmod_inj {m : Nat} (hi : i < m) (hj : j < m)
    (h : Int.bmod (i : Int) m = Int.bmod (j : Int) m) : i = j := by
  have hmod : Int.bmod (i : Int) m % m = Int.bmod (j : Int) m % m := by rw [h]
  rw [Int.bmod_emod, Int.bmod_emod, ← Int.natCast_emod, ← Int.natCast_emod,
    Nat.mod_eq_of_lt hi, Nat.mod_eq_of_lt hj] at hmod
  exact Int.ofNat.inj hmod

theorem rotatedPath_inj (hext : extension ≠ []) (hi : i < 2 ^ 32) (hj : j < 2 ^ 32)
    (h : getRotatedFilePath extension path i = getRotatedFilePath extension path j) : i = j := by
  obtain ⟨front, own, -, -, hname⟩ := @rotatedPath_eq path extension hext
  have hnumber : signedDecimal asciiDigit (Int.bmod i (2 ^ 32)) =
      signedDecimal asciiDigit (Int.bmod j (2 ^ 32)) := by
    rw [hname, hname] at h
    exact List.append_cancel_left h
  have hread := congrArg (strtol 10) hnumber
  rw [writes_asciiDigit.strtol_signedDecimal, writes_asciiDigit.strtol_signedDecimal] at hread
  exact bmod_inj hi hj (Option.some.inj hread)

/-- With a number behind a longer extension there is one dot too many. -/
theorem append_number_ne {front own number : FilePath} (hext : extension ≠ [])
    (hown : own = [] ∨ ∃ rest, own = dot :: rest ∧ dot ∉ rest) :
    front ++ (if extension.head? = some dot then [] else [dot]) ++ extension ++ [dot] ++ number ≠
      front ++ own := by
  intro h
  obtain ⟨c, more, rfl⟩ := List.exists_cons_of_ne_nil hext
  rw [List.append_assoc, List.append_assoc, List.append_assoc] at h
  replace h := List.append_cancel_left h
  rcases hown with rfl | ⟨rest, rfl, hdot⟩
  · exact List.cons_ne_nil _ _ (List.append_eq_nil_iff.1 (List.append_eq_nil_iff.1 h).2).1
  · refine hdot ?_
    split at h
    · rw [List.nil_append, List.cons_append] at h
      rw [← (List.cons.inj h).2]
      exact List.mem_append_right _ List.mem_cons_self
    · rw [List.singleton_append] at h
      rw [← (List.cons.inj h).2]
      exact List.mem_append_right _ List.mem_cons_self

theorem rotatedPath_ne (hext : extension ≠ []) : getRotatedFilePath extension path i ≠ path := by
  obtain ⟨front, own, hpath, hown, hname⟩ := @rotatedPath_eq path extension hext
  rw [hname, hpath]
  exact append_number_ne hext hown

/-- The files that a rotation is about: the one that is written to, and the rotated ones. -/
def slotPath (extension path : FilePath) (i : Nat) : FilePath :=
  if i = 0 then path else getRotatedFilePath extension path i

theorem slotPath_pos (hi : 0 < i) :
    slotPath extension path i = getRotatedFilePath extension path i :=
  if_neg (by omega)

theorem slotPath_inj (hext : extension ≠ []) (hi : i < 2 ^ 32) (hj : j < 2 ^ 32)
    (h : slotPath extension path i = slotPath extension path j) : i = j := by
  rw [slotPath, slotPath] at h
  split at h
  · next hzero =>
      split at h
      · next hzero' => rw [hzero, hzero']
      · exact absurd h.symm (rotatedPath_ne hext)
  · split at h
    · exact absurd h (rotatedPath_ne hext)
    · exact rotatedPath_inj hext hi hj h

end MuditaOS.Utils.Rotator

import Mathlib.Data.List.Basic

/-!
# Values spread through a memory

Cells of a memory are read and written one at a time, and they may overlap. A value is read from
one cell and written to some, and then the next is. Where nothing is written that is read or
written later, each cell holds in the end what its source held at first.
-/

namespace MuditaOS.Lib

variable {M ι α : Type*}

structure Cells (M ι α : Type*) where
  get : M → ι → α
  put : M → ι → α → M
  /-- A write to the first cell leaves the second as it is. -/
  Apart : ι → ι → Prop
  get_put : ∀ m i v, get (put m i v) i = v
  get_put_of_apart : ∀ m v {i j}, Apart i j → get (put m i v) j = get m j

namespace Cells

variable (cells : Cells M ι α)

def putAll (dests : List ι) (v : α) (m : M) : M := dests.foldl (fun m dest => cells.put m dest v) m

/-- Each move has a source and its destinations. -/
def spread (moves : List (ι × List ι)) (m : M) : M :=
  moves.foldl (fun m move => cells.putAll move.2 (cells.get m move.1) m) m

/-- Nothing is written that a later move reads, and nothing twice. -/
structure Orderly (moves : List (ι × List ι)) : Prop where
  later : moves.Pairwise fun earlier later =>
    ∀ dest ∈ earlier.2, cells.Apart dest later.1 ∧ ∀ dest' ∈ later.2, cells.Apart dest' dest
  each : ∀ move ∈ moves, move.2.Pairwise fun a b => cells.Apart b a

variable {cells} {moves : List (ι × List ι)} {dests : List ι} {src dest j : ι} {v : α} {m : M}

theorem putAll_inv {P : M → Prop} (h : ∀ m, ∀ dest ∈ dests, P m → P (cells.put m dest v))
    (hm : P m) : P (cells.putAll dests v m) := by
  induction dests generalizing m with
  | nil => exact hm
  | cons dest dests ih =>
      exact ih (fun m dest' hdest' => h m dest' (List.mem_cons_of_mem dest hdest'))
        (h m dest List.mem_cons_self hm)

theorem spread_cons {move : ι × List ι} : cells.spread (move :: moves) m =
    cells.spread moves (cells.putAll move.2 (cells.get m move.1) m) := rfl

/-- What every write keeps is kept. -/
theorem spread_inv {P : M → Prop}
    (h : ∀ m v, ∀ move ∈ moves, ∀ dest ∈ move.2, P m → P (cells.put m dest v)) (hm : P m) :
    P (cells.spread moves m) := by
  induction moves generalizing m with
  | nil => exact hm
  | cons move moves ih =>
      rw [spread_cons]
      refine ih (fun m v move' hmove' => h m v move' (List.mem_cons_of_mem move hmove')) ?_
      exact putAll_inv (fun m dest hdest => h m _ move List.mem_cons_self dest hdest) hm

theorem get_putAll_of_apart (h : ∀ dest ∈ dests, cells.Apart dest j) :
    cells.get (cells.putAll dests v m) j = cells.get m j :=
  putAll_inv (P := fun m' => cells.get m' j = cells.get m j)
    (fun _ dest hdest hkept => (cells.get_put_of_apart _ v (h dest hdest)).trans hkept) rfl

theorem get_spread_of_apart (h : ∀ move ∈ moves, ∀ dest ∈ move.2, cells.Apart dest j) :
    cells.get (cells.spread moves m) j = cells.get m j :=
  spread_inv (P := fun m' => cells.get m' j = cells.get m j)
    (fun _ v move hmove dest hdest hkept =>
      (cells.get_put_of_apart _ v (h move hmove dest hdest)).trans hkept) rfl

theorem get_putAll (h : dests.Pairwise fun a b => cells.Apart b a) (hdest : dest ∈ dests) :
    cells.get (cells.putAll dests v m) dest = v := by
  induction dests generalizing m with
  | nil => exact absurd hdest List.not_mem_nil
  | cons first dests ih =>
      obtain ⟨hfirst, hrest⟩ := List.pairwise_cons.1 h
      rcases List.mem_cons.1 hdest with rfl | hdest
      · exact (get_putAll_of_apart hfirst).trans (cells.get_put m dest v)
      · exact ih hrest hdest

/-- In an orderly spread, every destination gets what its source held at first. -/
theorem get_spread (h : cells.Orderly moves) (hmove : (src, dests) ∈ moves)
    (hdest : dest ∈ dests) : cells.get (cells.spread moves m) dest = cells.get m src := by
  induction moves generalizing m with
  | nil => exact absurd hmove List.not_mem_nil
  | cons move moves ih =>
      obtain ⟨hlater, hrest⟩ := List.pairwise_cons.1 h.later
      have hmoves : cells.Orderly moves :=
        ⟨hrest, fun move' hmove' => h.each move' (List.mem_cons_of_mem move hmove')⟩
      rw [spread_cons]
      rcases List.mem_cons.1 hmove with rfl | hmem
      · have hkept : ∀ move ∈ moves, ∀ dest' ∈ move.2, cells.Apart dest' dest :=
          fun move hmove dest' hdest' => (hlater move hmove dest hdest).2 dest' hdest'
        rw [get_spread_of_apart hkept]
        exact get_putAll (h.each _ List.mem_cons_self) hdest
      · rw [ih hmoves hmem]
        exact get_putAll_of_apart fun dest' hdest' => (hlater _ hmem dest' hdest').1

end Cells

end MuditaOS.Lib

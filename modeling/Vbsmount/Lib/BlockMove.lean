/-
**Moving a block cell by cell, when source and destination may overlap.**

A move of one cell reads all of the cell before it writes any of it; a block is moved by moving
cells of one width, from low addresses to high ones.  Where the two blocks overlap, a cell reads
what the cells before it have written, so the outcome may depend on the width.  It does not where no
cell writes what it would still have to read, one byte at a time.

Main definitions:

* `BlockMove.cell` — moving one cell;
* `BlockMove.run` — moving a number of cells in a row.

Main results:

* `BlockMove.cell_add`, `BlockMove.run_add` — a cell in two parts, and a run in two parts;
* `BlockMove.run_eq_bytes` — **a run of cells is a run of bytes**, if the destination does not begin
  inside the first cell of the source, behind its first byte;
* `BlockMove.run_eq_cell` — a run copies the block as it was before the run, if the destination does
  not begin inside the source at all, behind its first byte.
-/

import Mathlib.Tactic

set_option relaxedAutoImplicit false
set_option autoImplicit false

namespace BlockMove

variable {α : Type}

/-- Move a cell of `w` bytes from `s` to `d`: it is read whole before it is written. -/
def cell (w d s : ℕ) (m : ℕ → α) : ℕ → α :=
  fun i => if d ≤ i ∧ i < d + w then m (s + (i - d)) else m i

/-- Move `n` cells of `w` bytes in a row. -/
def run (w : ℕ) : ℕ → ℕ → ℕ → (ℕ → α) → ℕ → α
  | 0, _, _, m => m
  | n + 1, d, s, m => run w n (d + w) (s + w) (cell w d s m)

/-! ### Cells -/

section Cell

variable {w d s i : ℕ} {m : ℕ → α}

/-- What a move does inside of its destination. -/
theorem cell_of_mem (h₁ : d ≤ i) (h₂ : i < d + w) : cell w d s m i = m (s + (i - d)) :=
  if_pos ⟨h₁, h₂⟩

/-- It does nothing outside. -/
theorem cell_of_notMem (h : ¬ (d ≤ i ∧ i < d + w)) : cell w d s m i = m i := if_neg h

@[simp] theorem cell_zero (d s : ℕ) (m : ℕ → α) : cell 0 d s m = m := by
  funext i
  exact cell_of_notMem (by omega)

/-- One byte. -/
theorem cell_one (d s : ℕ) (m : ℕ → α) : cell 1 d s m = Function.update m d (m s) := by
  funext i
  by_cases hi : i = d
  · subst hi
    rw [cell_of_mem le_rfl (Nat.lt_succ_self i), Function.update_self, Nat.sub_self, Nat.add_zero]
  · rw [cell_of_notMem (by omega), Function.update_of_ne hi]

/-- **A cell in two parts**: the second part may be read after the first one was written, if it was
not overwritten by it. -/
theorem cell_add {a b : ℕ} (h : d ≤ s ∨ s + (a + b) ≤ d) :
    cell (a + b) d s m = cell b (d + a) (s + a) (cell a d s m) := by
  funext i
  by_cases hfirst : d ≤ i ∧ i < d + a
  · rw [cell_of_mem hfirst.1 (by omega), cell_of_notMem (by omega), cell_of_mem hfirst.1 hfirst.2]
  · by_cases hsecond : d + a ≤ i ∧ i < d + a + b
    · -- the byte that is read is not one of those just written
      have hread : ¬ (d ≤ s + a + (i - (d + a)) ∧ s + a + (i - (d + a)) < d + a) := by omega
      have hsame : s + a + (i - (d + a)) = s + (i - d) := by omega
      rw [cell_of_mem (by omega) (by omega), cell_of_mem hsecond.1 hsecond.2, cell_of_notMem hread,
        hsame]
    · rw [cell_of_notMem (by omega), cell_of_notMem hsecond, cell_of_notMem hfirst]

end Cell

/-! ### Runs -/

section Run

variable {w d s : ℕ} {m : ℕ → α}

/-- A run in two parts. -/
theorem run_add (w a b d s : ℕ) (m : ℕ → α) :
    run w (a + b) d s m = run w b (d + a * w) (s + a * w) (run w a d s m) := by
  induction a generalizing d s m with
  | zero => simp [run]
  | succ a ih =>
      have hd : d + w + a * w = d + (a + 1) * w := by ring
      have hs : s + w + a * w = s + (a + 1) * w := by ring
      rw [Nat.add_right_comm, run, run, ih, hd, hs]

/-- The bytes of one cell, moved one after the other. -/
theorem cell_eq_bytes (h : d ≤ s ∨ s + w ≤ d) : cell w d s m = run 1 w d s m := by
  induction w generalizing d s m with
  | zero => exact cell_zero d s m
  | succ w ih =>
      rw [Nat.add_comm w 1, cell_add (by omega), ih (by omega), Nat.add_comm 1 w]
      rfl

/-- **A run of cells is a run of bytes.** -/
theorem run_eq_bytes (n : ℕ) (h : 0 < n → d ≤ s ∨ s + w ≤ d) :
    run w n d s m = run 1 (n * w) d s m := by
  induction n generalizing d s m with
  | zero => simp [run]
  | succ n ih =>
      have hcount : (n + 1) * w = w + n * w := by ring
      have hcell := h n.succ_pos
      rw [run, ih (by omega), cell_eq_bytes hcell, hcount, run_add, Nat.mul_one]

/-- A run copies the block as it was before the run. -/
theorem run_eq_cell (n : ℕ) (h : d ≤ s ∨ s + n * w ≤ d) : run w n d s m = cell (n * w) d s m := by
  induction n generalizing d s m with
  | zero => simp [run]
  | succ n ih =>
      have hcount : (n + 1) * w = w + n * w := by ring
      rw [hcount] at h ⊢
      rw [run, ih (by omega), cell_add h]

end Run

end BlockMove

/-
**The C library replacements of the resident part (`miniclib.c`).**

* `fstrrchrLocal` — `_fstrrchr_local`: the last occurrence of a character in a string, or the start
  of the string when there is none;
* `fmemcpyLocal` — `_fmemcpy_local` between two buffers that do not overlap: double words, then at
  most one word, then at most one byte, counted by `CX` and the carry flags of two shifts;
* `fmemcpyLocal_eq` — it copies exactly `num` bytes.
-/

import Vbsmount.Lib.CString
import Vbsmount.Dos

set_option relaxedAutoImplicit false
set_option autoImplicit false

namespace Vbsmount

open Bytes

/-- `_fstrrchr_local`: the offset of the character that the returned pointer points to. -/
def fstrrchrLocal (str : List (BitVec 8)) (c : BitVec 8) : ℕ := CString.rindex chNul c str

/-! ### Copying -/

/-- A string move `rep movs` of cells of `w` bytes, `cx` times: `si` and `di` advance together, and
both ends of the copy start at offset `o` of their buffers.  The result is the destination and the
offset behind the last cell. -/
def repMovs (w : ℕ) (src : Mem) : ℕ → ℕ → Mem → Mem × ℕ
  | 0, o, dst => (dst, o)
  | cx + 1, o, dst =>
      repMovs w src cx (o + w) fun i => if o ≤ i ∧ i < o + w then src i else dst i

/-- `_fmemcpy_local`.  The first shift moves bit 0 of `num` into the carry, which is saved; the
second one leaves bit 1 there.  Each `rep` ends with `CX = 0`, so that `adc cx,cx` leaves the carry
alone in `CX`. -/
def fmemcpyLocal (dst src : Mem) (num : BitVec 16) : Mem :=
  let carry₁ := num.toNat % 2
  let cx := num.toNat / 2
  let carry₂ := cx % 2
  let cx := cx / 2
  let (dst, o) := repMovs 4 src cx 0 dst
  let (dst, o) := repMovs 2 src carry₂ o dst
  (repMovs 1 src carry₁ o dst).1

theorem repMovs_spec (w : ℕ) (src : Mem) (cx : ℕ) : ∀ (o : ℕ) (dst : Mem),
    repMovs w src cx o dst =
      (fun i => if o ≤ i ∧ i < o + cx * w then src i else dst i, o + cx * w) := by
  induction cx with
  | zero =>
      intro o dst
      simp only [repMovs, Nat.zero_mul, Nat.add_zero, Prod.mk.injEq, and_true]
      funext i
      rw [if_neg (by omega)]
  | succ cx ih =>
      intro o dst
      have hsum : o + w + cx * w = o + (cx + 1) * w := by ring
      rw [repMovs, ih, hsum]
      simp only [Prod.mk.injEq, and_true]
      funext i
      by_cases h₁ : o + w ≤ i ∧ i < o + (cx + 1) * w
      · rw [if_pos h₁, if_pos ⟨by omega, h₁.2⟩]
      · rw [if_neg h₁]
        by_cases h₂ : o ≤ i ∧ i < o + w
        · have : w ≤ (cx + 1) * w := Nat.le_mul_of_pos_left w (Nat.succ_pos cx)
          rw [if_pos h₂, if_pos ⟨h₂.1, by omega⟩]
        · rw [if_neg h₂, if_neg (by omega)]

/-- **The chunked copy copies exactly `num` bytes.** -/
theorem fmemcpyLocal_eq (dst src : Mem) (num : BitVec 16) :
    fmemcpyLocal dst src num = fun i => if i < num.toNat then src i else dst i := by
  have hsplit : num.toNat / 2 / 2 * 4 + num.toNat / 2 % 2 * 2 + num.toNat % 2 * 1 = num.toNat := by
    omega
  simp only [fmemcpyLocal, repMovs_spec, Nat.zero_add]
  funext i
  rw [hsplit]
  by_cases hi : i < num.toNat
  · rw [if_pos hi]
    split_ifs <;> first | rfl | omega
  · rw [if_neg hi, if_neg (by omega), if_neg (by omega), if_neg (by omega)]

end Vbsmount

/-
**UCS-2 to the local code page, in the resident part (`ucs2.c`).**

* `fpUnicodeTbl` — the code points of the upper half of the code page;
* `lookupCP`, `ucs2Char` — the byte of a code unit, with `'_'` for what the code page lacks;
* `cpUcs2ToLocal`, `cpUcs2ToLocal_apply` — `cp_ucs2_to_local` converts exactly `len` units.
-/

import Vbsmount.Dos
import Vbsmount.Lib.Search

set_option relaxedAutoImplicit false
set_option autoImplicit false

namespace Vbsmount

open Bytes

namespace Ucs2

/-- `fpUnicodeTbl`: the code point of byte `i + 128`. -/
def fpUnicodeTbl : List (BitVec 16) :=
  [0x00C7, 0x00FC, 0x00E9, 0x00E2, 0x00E4, 0x00E0, 0x00E5, 0x00E7,
   0x00EA, 0x00EB, 0x00E8, 0x00EF, 0x00EE, 0x00EC, 0x00C4, 0x00C5,
   0x00C9, 0x00E6, 0x00C6, 0x00F4, 0x00F6, 0x00F2, 0x00FB, 0x00F9,
   0x00FF, 0x00D6, 0x00DC, 0x00F8, 0x00A3, 0x00D8, 0x00D7, 0x0192,
   0x00E1, 0x00ED, 0x00F3, 0x00FA, 0x00F1, 0x00D1, 0x00AA, 0x00BA,
   0x00BF, 0x00AE, 0x00AC, 0x00BD, 0x00BC, 0x00A1, 0x00AB, 0x00BB,
   0x2591, 0x2592, 0x2593, 0x2502, 0x2524, 0x25C1, 0x00C2, 0x00C0,
   0x00A9, 0x2563, 0x2551, 0x2557, 0x255D, 0x00A2, 0x00A5, 0x2510,
   0x2514, 0x2534, 0x252C, 0x251C, 0x2500, 0x253C, 0x00E3, 0x00C3,
   0x255A, 0x2554, 0x2569, 0x2566, 0x2560, 0x2550, 0x256C, 0x00A4,
   0x00F0, 0x00D0, 0x00CA, 0x00CB, 0x00C8, 0x20AC, 0x00CD, 0x00CE,
   0x00CF, 0x2518, 0x250C, 0x2588, 0x2584, 0x00A6, 0x00CC, 0x2580,
   0x00D3, 0x00DF, 0x00D4, 0x00D2, 0x00F5, 0x00D5, 0x00B5, 0x00FE,
   0x00DE, 0x00DA, 0x00DB, 0x00D9, 0x00FD, 0x00DD, 0x00AF, 0x00B4,
   0x00AD, 0x00B1, 0x2017, 0x00BE, 0x00B6, 0x00A7, 0x00F7, 0x00B8,
   0x00B0, 0x00A8, 0x00B7, 0x00B9, 0x00B3, 0x00B2, 0x25A0, 0x00A0]

/-- `lookupCP`: the byte of a code point, or `'\0'` when the table does not hold it. -/
def lookupCP (tbl : List (BitVec 16)) (cp : BitVec 16) : BitVec 8 :=
  let i := Search.scan (fun i => tbl[i]? == some cp) 0 128
  if i < 128 then BitVec.ofNat 8 (i + 128) else chNul

/-- The byte stored for one code unit. -/
def ucs2Char (ucs2 : BitVec 16) : BitVec 8 :=
  if ucs2.toNat < 0x80 then ucs2.setWidth 8
  else
    let c := lookupCP fpUnicodeTbl ucs2
    -- the character `'_'`
    if c = chNul then 0x5F else c

/-- The loop of `cp_ucs2_to_local`, from unit `i` with `left` units to go. -/
def convertLoop (outstr : Mem) (instr : ℕ → BitVec 16) (i : ℕ) : ℕ → Mem
  | 0 => outstr
  | left + 1 => convertLoop (outstr.write i [ucs2Char (instr i)]) instr (i + 1) left

end Ucs2

open Ucs2

/-- `cp_ucs2_to_local`. -/
def cpUcs2ToLocal (outstr : Mem) (instr : ℕ → BitVec 16) (len : ℕ) : Mem :=
  convertLoop outstr instr 0 len

theorem convertLoop_apply (instr : ℕ → BitVec 16) (left : ℕ) : ∀ (outstr : Mem) (i j : ℕ),
    convertLoop outstr instr i left j =
      if i ≤ j ∧ j < i + left then ucs2Char (instr j) else outstr j := by
  induction left with
  | zero =>
      intro outstr i j
      rw [convertLoop, if_neg (by omega)]
  | succ left ih =>
      intro outstr i j
      rw [convertLoop, ih]
      rcases Nat.lt_trichotomy j i with h | rfl | h
      · rw [if_neg (by omega), if_neg (by omega), Mem.write_of_lt h]
      · rw [if_neg (by omega), if_pos (by omega)]
        have h : 0 < [ucs2Char (instr j)].length := Nat.one_pos
        exact Mem.write_get (o := j) h
      · by_cases hj : j < i + 1 + left
        · rw [if_pos (by omega), if_pos (by omega)]
        · rw [if_neg (by omega), if_neg (by omega), Mem.write_of_ge (by simp; omega)]

/-- **Exactly `len` units are converted.** -/
theorem cpUcs2ToLocal_apply (outstr : Mem) (instr : ℕ → BitVec 16) (len j : ℕ) :
    cpUcs2ToLocal outstr instr len j = if j < len then ucs2Char (instr j) else outstr j := by
  rw [cpUcs2ToLocal, convertLoop_apply]
  simp

end Vbsmount

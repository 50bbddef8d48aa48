/-
**Names of files: FCB form and path form (`redir.c`).**

The resident driver gets the name of a file twice from DOS, as a path and in the eleven-byte form
of a file control block, and computes each form from the other: `FillFcbName` fills the FCB name
from the last component of a path, `MakeFullPath` appends an FCB name to a directory.

* `fillFcbName` — `FillFcbName`: the write index is bounded by the shape of the name only, so the
  FCB name is memory that goes on behind its eleven bytes;
* `makeFullPath` — `MakeFullPath`: the bytes stored from `fullPath` on, the terminator included;
* `fcbCells` — the bytes that `fillFcbName` stores, in order;
* `fillFcbName_eq` — **the two loops of `FillFcbName` are one store of `fcbCells`**, padded to the
  width of an FCB name.
-/

import Vbsmount.Dos
import Vbsmount.Miniclib

set_option relaxedAutoImplicit false
set_option autoImplicit false

namespace Vbsmount

open Bytes

/-! ### `FillFcbName` -/

/-- `while ( i < n ) fcbName[i++] = ' ';` with `left` rounds to go. -/
def blankLoop (fcbName : Mem) (i : ℕ) : ℕ → Mem × ℕ
  | 0 => (fcbName, i)
  | left + 1 => blankLoop (fcbName.write i [chBlank]) (i + 1) left

/-- `for ( ; *p; ++p )`, the copy loop of `FillFcbName`: a dot pads to the eighth byte and is
dropped, everything else is copied. -/
def fillLoop (fcbName : Mem) (i : ℕ) : List (BitVec 8) → Mem × ℕ
  | [] => (fcbName, i)
  | c :: p =>
      if c = chNul then (fcbName, i)
      else if c = chDot then
        let (fcbName, i) := blankLoop fcbName i (8 - i)
        fillLoop fcbName i p
      else fillLoop (fcbName.write i [c]) (i + 1) p

/-- `FillFcbName`. -/
def fillFcbName (fcbName : Mem) (fileName : List (BitVec 8)) : Mem :=
  let p := fileName.drop (fstrrchrLocal fileName chBackslash + 1)
  let (fcbName, i) := fillLoop fcbName 0 p
  (blankLoop fcbName i (11 - i)).1

/-- What the copy loop of `FillFcbName` stores, starting at index `i`. -/
def fcbCells (i : ℕ) : List (BitVec 8) → List (BitVec 8)
  | [] => []
  | c :: p =>
      if c = chNul then []
      else if c = chDot then List.replicate (8 - i) chBlank ++ fcbCells (i + (8 - i)) p
      else c :: fcbCells (i + 1) p

theorem blankLoop_eq (fcbName : Mem) (i left : ℕ) :
    blankLoop fcbName i left = (fcbName.write i (List.replicate left chBlank), i + left) := by
  induction left generalizing fcbName i with
  | zero => simp [blankLoop]
  | succ left ih =>
      have hw := Mem.write_append fcbName i [chBlank] (List.replicate left chBlank)
      rw [blankLoop, ih, List.replicate_succ]
      simp only [List.length_singleton, List.singleton_append] at hw
      rw [hw, Nat.add_assoc, Nat.add_comm 1]

/-- The copy loop stores its cells one behind the other. -/
theorem fillLoop_eq (p : List (BitVec 8)) : ∀ (fcbName : Mem) (i : ℕ),
    fillLoop fcbName i p = (fcbName.write i (fcbCells i p), i + (fcbCells i p).length) := by
  induction p with
  | nil => intro fcbName i; simp [fillLoop, fcbCells]
  | cons c p ih =>
      intro fcbName i
      by_cases h0 : c = chNul
      · simp [fillLoop, fcbCells, h0]
      · by_cases hdot : c = chDot
        · rw [fillLoop, if_neg h0, if_pos hdot, fcbCells, if_neg h0, if_pos hdot, blankLoop_eq]
          have hw := Mem.write_append fcbName i (List.replicate (8 - i) chBlank)
            (fcbCells (i + (8 - i)) p)
          rw [List.length_replicate] at hw
          simp only [ih]
          rw [hw, List.length_append, List.length_replicate, Nat.add_assoc]
        · rw [fillLoop, if_neg h0, if_neg hdot, fcbCells, if_neg h0, if_neg hdot, ih]
          have hw := Mem.write_append fcbName i [c] (fcbCells (i + 1) p)
          simp only [List.length_singleton, List.singleton_append] at hw
          rw [hw, List.length_cons, Nat.add_assoc, Nat.add_comm 1]

/-- **`FillFcbName` stores the cells of the last component, padded with blanks.** -/
theorem fillFcbName_eq (fcbName : Mem) (fileName : List (BitVec 8)) :
    fillFcbName fcbName fileName = fcbName.write 0 (CString.pad chBlank 11
      (fcbCells 0 (fileName.drop (fstrrchrLocal fileName chBackslash + 1)))) := by
  have hw := Mem.write_append fcbName 0
    (fcbCells 0 (fileName.drop (fstrrchrLocal fileName chBackslash + 1)))
    (List.replicate (11 - (fcbCells 0
      (fileName.drop (fstrrchrLocal fileName chBackslash + 1))).length) chBlank)
  rw [Nat.zero_add] at hw
  simp only [fillFcbName, fillLoop_eq, blankLoop_eq, Nat.zero_add]
  rw [hw, CString.pad]

/-! ### `MakeFullPath` -/

/-- `while ( *dirName ) *(fullPath++) = *(dirName++);` -/
def copyString : List (BitVec 8) → List (BitVec 8)
  | [] => []
  | c :: dirName => if c = chNul then [] else c :: copyString dirName

/-- The loop over the FCB name in `MakeFullPath`, from byte `i` with `left` bytes to go: blanks are
dropped, and a dot goes before byte 8. -/
def emitLoop (fcbName : Mem) (i : ℕ) : ℕ → List (BitVec 8)
  | 0 => []
  | left + 1 =>
      if fcbName i ≠ chBlank then
        if i = 8 then chDot :: fcbName i :: emitLoop fcbName (i + 1) left
        else fcbName i :: emitLoop fcbName (i + 1) left
      else emitLoop fcbName (i + 1) left

/-- `MakeFullPath`: the bytes stored from `fullPath` on. -/
def makeFullPath (dirName : List (BitVec 8)) (fcbName : Mem) : List (BitVec 8) :=
  copyString dirName ++ chBackslash :: (emitLoop fcbName 0 11 ++ [chNul])

theorem copyString_eq_text (dirName : List (BitVec 8)) :
    copyString dirName = CString.text chNul dirName := by
  induction dirName with
  | nil => rfl
  | cons c dirName ih =>
      by_cases hc : c = chNul
      · simp [copyString, CString.text, hc]
      · simp [copyString, CString.text, hc, ih]

end Vbsmount

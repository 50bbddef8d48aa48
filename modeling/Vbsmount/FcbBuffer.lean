/-
**The bounds of `FillFcbName`.**

Nothing in `FillFcbName` bounds its index.  It stays inside the eleven bytes of the FCB name because
of the shape of the name, and it stays inside the path because the backward search stops before the
terminator, which in an empty string it cannot.  This module runs the function on memory that ends
with the terminator, where a read behind it is an outcome of its own, and says for which names
neither buffer is left.

Main definitions:

* `fstrrchrLocalChecked`, `fillLoopChecked`, `fillFcbNameChecked` — the functions of the source on
  memory that ends;
* `storedLength` — the number of bytes that the copy loop stores for a component;
* `Redir.StaysInBuffers` — neither buffer is left in the call that `IsCallForUs` makes.

Main results:

* `fillFcbNameChecked_eq_some` — within the string, the checked functions and those of the source
  agree, whatever stands behind the terminator;
* `length_fcbCells` — the number of stored bytes;
* `Redir.staysInBuffers_iff` — **neither buffer is left exactly when the string is not empty and its
  last component takes no more than eleven bytes**.
-/

import Vbsmount.RedirFrame

set_option relaxedAutoImplicit false
set_option autoImplicit false

namespace Vbsmount

open Bytes CString

/-! ### Checked reads -/

/-- The forward loop of `_fstrrchr_local`. -/
def strEndChecked : List (BitVec 8) → Option ℕ
  | [] => none
  | b :: str => if b = chNul then some 0 else (strEndChecked str).map (· + 1)

/-- The backward loop of `_fstrrchr_local`, from index `i` on. -/
def scanBackChecked (str : List (BitVec 8)) (c : BitVec 8) : ℕ → Option ℕ
  | 0 => some 0
  | i + 1 =>
      match str[i + 1]? with
      | none => none
      | some b => if b = c then some (i + 1) else scanBackChecked str c i

/-- `_fstrrchr_local` on memory that ends. -/
def fstrrchrLocalChecked (str : List (BitVec 8)) (c : BitVec 8) : Option ℕ :=
  (strEndChecked str).bind (scanBackChecked str c)

/-- The copy loop of `FillFcbName` on memory that ends. -/
def fillLoopChecked (fcbName : Mem) (i : ℕ) : List (BitVec 8) → Option (Mem × ℕ)
  | [] => none
  | c :: p =>
      if c = chNul then some (fcbName, i)
      else if c = chDot then
        let (fcbName, i) := blankLoop fcbName i (8 - i)
        fillLoopChecked fcbName i p
      else fillLoopChecked (fcbName.write i [c]) (i + 1) p

/-- `FillFcbName` on memory that ends. -/
def fillFcbNameChecked (fcbName : Mem) (fileName : List (BitVec 8)) : Option Mem :=
  (fstrrchrLocalChecked fileName chBackslash).bind fun start =>
    (fillLoopChecked fcbName 0 (fileName.drop (start + 1))).map fun (fcbName, i) =>
      (blankLoop fcbName i (11 - i)).1

theorem strEndChecked_eq {str : List (BitVec 8)} (h : chNul ∈ str) :
    strEndChecked str = some (strEnd chNul str) := by
  induction str with
  | nil => cases h
  | cons b str ih =>
      by_cases hb : b = chNul
      · simp [strEndChecked, strEnd, hb]
      · have htail : chNul ∈ str := (List.mem_cons.1 h).resolve_left (Ne.symm hb)
        simp [strEndChecked, strEnd, hb, ih htail]

theorem scanBackChecked_eq {str : List (BitVec 8)} {c : BitVec 8} {i : ℕ} (hi : i < str.length) :
    scanBackChecked str c i = some (scanBack str c i) := by
  induction i with
  | zero => rfl
  | succ i ih =>
      have hget : str[i + 1]? = some str[i + 1] := List.getElem?_eq_getElem hi
      rw [scanBackChecked, scanBack, hget]
      by_cases hb : str[i + 1] = c
      · simp [hb]
      · simp [hb, ih (by omega)]

/-- The backward search does not leave a terminated string. -/
theorem fstrrchrLocalChecked_eq {str : List (BitVec 8)} (h : chNul ∈ str) (c : BitVec 8) :
    fstrrchrLocalChecked str c = some (fstrrchrLocal str c) := by
  rw [fstrrchrLocalChecked, strEndChecked_eq h, Option.bind_some,
    scanBackChecked_eq (strEnd_lt_length h)]
  rfl

/-- The copy loop does not leave a terminated string, and does not see what is behind it. -/
theorem fillLoopChecked_eq {s : List (BitVec 8)} (hs : chNul ∉ s) (rest : List (BitVec 8)) :
    ∀ (fcbName : Mem) (i : ℕ),
      fillLoopChecked fcbName i (s ++ [chNul]) = some (fillLoop fcbName i (s ++ chNul :: rest)) := by
  induction s with
  | nil => intro fcbName i; simp [fillLoopChecked, fillLoop]
  | cons c s ih =>
      intro fcbName i
      have hc : c ≠ chNul := fun h => hs (h ▸ List.mem_cons_self ..)
      have ih' := ih fun h => hs (List.mem_cons_of_mem c h)
      by_cases hdot : c = chDot
      · simp only [List.cons_append, fillLoopChecked, fillLoop, if_neg hc, if_pos hdot, ih']
      · simp only [List.cons_append, fillLoopChecked, fillLoop, if_neg hc, if_neg hdot, ih']

/-! ### Reads -/

section

variable (name : Str chNul)

theorem nul_notMem_component : chNul ∉ component chBackslash name.chars :=
  fun h => name.nul_notMem (mem_of_mem_component h)

/-- **In a string that is not empty, `FillFcbName` reads nothing behind the terminator**, and what
it does is the same whatever stands there. -/
theorem fillFcbNameChecked_eq_some (hne : name.chars ≠ []) (fcbName : Mem)
    (rest : List (BitVec 8)) : fillFcbNameChecked fcbName (name.mem []) =
      some (fillFcbName fcbName (name.mem rest)) := by
  have hnul : chNul ∈ name.mem [] := List.mem_append_right _ (List.mem_cons_self ..)
  have hloop := fillLoopChecked_eq (nul_notMem_component name) rest fcbName 0
  rw [fillFcbNameChecked, fstrrchrLocalChecked_eq hnul, Option.bind_some, fstrrchrLocal,
    drop_rindex name chBackslash_ne_chNul hne, hloop, fillFcbName, fstrrchrLocal,
    drop_rindex name chBackslash_ne_chNul hne]
  rfl

/-- In the empty string it starts behind the terminator. -/
theorem fillFcbNameChecked_nil (fcbName : Mem) : fillFcbNameChecked fcbName [chNul] = none := rfl

end

/-! ### Stores -/

/-- The number of bytes that the copy loop stores for a component: the first dot pads to the eighth
byte, the others are dropped. -/
def storedLength (s : List (BitVec 8)) : ℕ :=
  if chDot ∈ s then
    max (s.takeWhile (· ≠ chDot)).length 8 + (keep chDot (s.dropWhile (· ≠ chDot))).length
  else s.length

/-- Behind the eighth byte dots are dropped. -/
theorem length_fcbCells_of_le {s : List (BitVec 8)} (hs : chNul ∉ s) (rest : List (BitVec 8)) :
    ∀ i, 8 ≤ i → (fcbCells i (s ++ chNul :: rest)).length = (keep chDot s).length := by
  induction s with
  | nil => intro i _; simp [keep]
  | cons c s ih =>
      intro i hi
      have hc : c ≠ chNul := fun h => hs (h ▸ List.mem_cons_self ..)
      have ih' := ih fun h => hs (List.mem_cons_of_mem c h)
      by_cases hdot : c = chDot
      · have hpadding : 8 - i = 0 := by omega
        rw [hdot, List.cons_append, fcbCells_dot, hpadding, keep_cons_blank]
        simpa using ih' i hi
      · rw [List.cons_append, fcbCells, if_neg hc, if_neg hdot, keep_cons_of_ne hdot,
          List.length_cons, List.length_cons, ih' (i + 1) (by omega)]

/-- **The number of stored bytes.** -/
theorem length_fcbCells {s : List (BitVec 8)} (hs : chNul ∉ s) (rest : List (BitVec 8)) :
    (fcbCells 0 (s ++ chNul :: rest)).length = storedLength s := by
  by_cases hdot : chDot ∈ s
  · obtain ⟨base, ext, rfl, hbase⟩ := List.eq_append_cons_of_mem hdot
    rw [List.mem_append, not_or, List.mem_cons, not_or] at hs
    have hne : ∀ c ∈ base, decide (c ≠ chDot) = true := fun c hc =>
      decide_eq_true (ne_of_mem_of_not_mem hc hbase)
    have htake : (base ++ chDot :: ext).takeWhile (· ≠ chDot) = base := by
      rw [List.takeWhile_append_of_pos hne]
      simp
    have hdrop : (base ++ chDot :: ext).dropWhile (· ≠ chDot) = chDot :: ext := by
      rw [List.dropWhile_append_of_pos hne]
      simp
    rw [storedLength, if_pos hdot, htake, hdrop, keep_cons_blank, List.append_assoc,
      fcbCells_append hs.1 hbase, Nat.zero_add, List.cons_append, fcbCells_dot, List.length_append,
      List.length_append, List.length_replicate, length_fcbCells_of_le hs.2.2 rest _ (by omega)]
    omega
  · rw [storedLength, if_neg hdot, fcbCells_append hs hdot, fcbCells_nul, List.append_nil]

/-- The FCB name behind its eleven bytes stays as it is for all contents exactly when the padded
cells are no more. -/
theorem agreeFrom_write_iff (bs : List (BitVec 8)) :
    (∀ m : Mem, Mem.AgreeFrom 11 (m.write 0 (pad chBlank 11 bs)) m) ↔ bs.length ≤ 11 := by
  constructor
  · intro h
    by_contra hlt
    have hpad : 11 < (pad chBlank 11 bs).length := by
      rw [pad, List.length_append]
      omega
    -- memory that holds another byte there
    have hat := h (fun _ => (pad chBlank 11 bs)[11] + 1) 11 le_rfl
    have hget := Mem.write_get (m := fun _ => (pad chBlank 11 bs)[11] + 1) (o := 0) hpad
    rw [Nat.zero_add, hat] at hget
    simp at hget
  · intro h m i hi
    refine Mem.write_of_ge ?_
    rw [pad_length h]
    omega

/-! ### The call in `IsCallForUs` -/

namespace Redir

/-- In every call that is accepted through the CDS of the current drive, with the string in
`fpFileName1`, nothing is read behind the terminator and nothing stored behind the eleven bytes. -/
structure StaysInBuffers (name : Str chNul) : Prop where
  reads : ∀ fcbName1 : Mem, (fillFcbNameChecked fcbName1 (name.mem [])).isSome
  stores : ∀ (s : State) (rest : List (BitVec 8)), s.dos.fileName1 = name.mem rest →
    AcceptedByCurrent s →
      Mem.AgreeFrom 11 (isCallForUs s.r.al s).2.dos.fcbName1 s.dos.fcbName1

/-- What an accepted call does to the FCB name. -/
theorem isCallForUs_fcbName1 {s : State} (h : AcceptedByCurrent s) :
    (isCallForUs s.r.al s).2.dos.fcbName1 = fillFcbName s.dos.fcbName1 s.dos.fileName1 := by
  obtain ⟨hp, hasked, hcur⟩ := h
  rw [isCallForUs_skip hp, if_neg hasked, if_pos hcur]

/-- A call that is accepted through the CDS of the current drive, with the given contents of the
two buffers. -/
def acceptedCall (fileName1 : List (BitVec 8)) (fcbName1 : Mem) : State :=
  ⟨⟨sampleVol, 1, 0⟩, { sampleDos 1 0 0 0 with fileName1 := fileName1, fcbName1 := fcbName1 },
    sampleRegs 0x1116 0⟩

theorem acceptedCall_accepted (fileName1 : List (BitVec 8)) (fcbName1 : Mem) :
    AcceptedByCurrent (acceptedCall fileName1 fcbName1) := by
  have hal : (acceptedCall fileName1 fcbName1).r.al = 0x16 := by
    simp [acceptedCall, sampleRegs, Regs.al]
  rw [AcceptedByCurrent, hal]
  exact ⟨by decide, fun h => absurd h.1 (by decide), rfl⟩

/-- **Neither buffer is left exactly when the string is not empty and its last component takes no
more than eleven bytes.** -/
theorem staysInBuffers_iff (name : Str chNul) : StaysInBuffers name ↔
    name.chars ≠ [] ∧ storedLength (component chBackslash name.chars) ≤ 11 := by
  have hfill (hne : name.chars ≠ []) (rest : List (BitVec 8)) (fcbName : Mem) :
      fillFcbName fcbName (name.mem rest) = fcbName.write 0 (pad chBlank 11
        (fcbCells 0 (component chBackslash name.chars ++ chNul :: rest))) := by
    rw [fillFcbName_eq, fstrrchrLocal, drop_rindex name chBackslash_ne_chNul hne]
  have hlen := length_fcbCells (nul_notMem_component name)
  constructor
  · rintro ⟨hreads, hstores⟩
    have hne : name.chars ≠ [] := by
      intro hnil
      have hsome := hreads fun _ => 0
      rw [Str.mem, hnil, List.nil_append, fillFcbNameChecked_nil] at hsome
      cases hsome
    refine ⟨hne, ?_⟩
    rw [← hlen [], ← agreeFrom_write_iff]
    intro fcbName1
    have hcall := hstores (acceptedCall (name.mem []) fcbName1) [] rfl (acceptedCall_accepted _ _)
    rw [isCallForUs_fcbName1 (acceptedCall_accepted _ _)] at hcall
    rw [← hfill hne]
    exact hcall
  · rintro ⟨hne, hle⟩
    constructor
    · intro fcbName1
      rw [fillFcbNameChecked_eq_some name hne fcbName1 []]
      rfl
    · intro s rest hpath haccept
      rw [isCallForUs_fcbName1 haccept, hpath, hfill hne]
      rw [← hlen rest] at hle
      exact (agreeFrom_write_iff _).2 hle s.dos.fcbName1

/-- The empty string, and the path `E:\ABCDEFGHIJKL` with a base of twelve letters. -/
theorem not_staysInBuffers_samples : ¬ StaysInBuffers ⟨[], List.not_mem_nil⟩ ∧
    ¬ StaysInBuffers ⟨[0x45, 0x3A, chBackslash, 0x41, 0x42, 0x43, 0x44, 0x45, 0x46, 0x47, 0x48,
      0x49, 0x4A, 0x4B, 0x4C], by decide⟩ := by
  constructor
  · rintro ⟨hreads, -⟩
    exact absurd (hreads fun _ => chBlank) (by decide)
  · rintro ⟨-, hstores⟩
    have hcall := hstores (acceptedCall [0x45, 0x3A, chBackslash, 0x41, 0x42, 0x43, 0x44, 0x45,
      0x46, 0x47, 0x48, 0x49, 0x4A, 0x4B, 0x4C, chNul] fun _ => chBlank) [] rfl
      (acceptedCall_accepted _ _) 11 le_rfl
    exact absurd hcall (by decide)

end Redir

end Vbsmount

/-
**UCS-2 to the local code page, in the transient part (`vboxaux.c`).**

The loader has a converter of its own, with its own copy of the table, a check of the buffer and a
value that says whether a unit had to be replaced.  The check is written `! buflen > len`, which
compares the negation of `buflen` with `len` and never fires.

Main definitions:

* `Transient.fpUnicodeTbl`, `Transient.lookupCP`, `Transient.ucs2ToLocal` — the source's table and
  functions; what is stored is the list of bytes from `outstr` on, the terminator included;
* `Transient.Missing`, `Transient.units` — a unit that the code page lacks, and the units of a
  string;
* `Transient.RespectsBuffer` — what the buffer check is for.

Main results:

* `Transient.ucs2ToLocal_eq` — what the converter does: the check has no effect;
* `Transient.ucs2ToLocal_respectsBuffer_iff` — **the buffer is respected exactly when it is longer
  than the string**;
* `Transient.ucs2ToLocal_agrees` — **the two converters agree on every string**.

The counters of the source are of type `int`, so a string has at most 32767 units.
-/

import Vbsmount.Ucs2

set_option relaxedAutoImplicit false
set_option autoImplicit false

namespace Vbsmount

open Bytes

namespace Transient

/-! ### The converter -/

/-- `fpUnicodeTbl`: the code point of byte `i + 128`. -/
def fpUnicodeTbl : List (BitVec 16) :=
  [0x00C7, 0x00FC, 0x00E9, 0x00E2, 0x00E4, 0x00E0, 0x00E5, 0x00E7,
   0x00EA, 0x00EB, 0x00E8, 0x00EF, 0x00EE, 0x00EC, 0x00C4, 0x00C5,
   0x00C9, 0x00E6, 0x00C6, 0x00F4, 0x00F6, 0x00F2, 0x00FB, 0x00F9,
   0x00FF, 0x00D6, 0x00DC, 0x00F8, 0x00A3, 0x00D8, 0x00D7, 0x0192,
   0x00E1, 0x00ED, 0x00F3, 0x00FA, 0x00F1, 0x00D1, 0x00AA, 0x00BA,
   0x00BF, 0x00AE, 0x00AC, 0x00BD, 0x00BC, 0x00A1, 0x00AB, 0x00BB,
   0x2591, 0x2592, 0x2593, 0x2502, 0x2524, 0x25C1, 0x00C2, 0x00C0,
   0x00A9, 0x2563, 0x2551, 0x2557, 0x255D, 0x00A2, 0x00A5, 0x2510,
   0x2514, 0x2534, 0x252C, 0x251C, 0x2500, 0x253C, 0x00E3, 0x00C3,
   0x255A, 0x2554, 0x2569, 0x2566, 0x2560, 0x2550, 0x256C, 0x00A4,
   0x00F0, 0x00D0, 0x00CA, 0x00CB, 0x00C8, 0x20AC, 0x00CD, 0x00CE,
   0x00CF, 0x2518, 0x250C, 0x2588, 0x2584, 0x00A6, 0x00CC, 0x2580,
   0x00D3, 0x00DF, 0x00D4, 0x00D2, 0x00F5, 0x00D5, 0x00B5, 0x00FE,
   0x00DE, 0x00DA, 0x00DB, 0x00D9, 0x00FD, 0x00DD, 0x00AF, 0x00B4,
   0x00AD, 0x00B1, 0x2017, 0x00BE, 0x00B6, 0x00A7, 0x00F7, 0x00B8,
   0x00B0, 0x00A8, 0x00B7, 0x00B9, 0x00B3, 0x00B2, 0x25A0, 0x00A0]

/-- `lookupCP`: the byte of a code point, or `'\0'` when the table does not hold it. -/
def lookupCP (tbl : List (BitVec 16)) (cp : BitVec 16) : BitVec 8 :=
  let i := Search.scan (fun i => tbl[i]? == some cp) 0 128
  if i < 128 then BitVec.ofNat 8 (i + 128) else chNul

/-- The character `'_'`. -/
def chUnderscore : BitVec 8 := 0x5F

/-- The loop of `ucs2_to_local`, from unit `i` with `left` units to go: `ret` is the value so far and
`out` what has been stored. -/
def convertLoop (instr : ℕ → BitVec 16) (i : ℕ) (ret : BitVec 16) (out : List (BitVec 8)) :
    ℕ → BitVec 16 × List (BitVec 8)
  | 0 => (ret, out ++ [chNul])
  | left + 1 =>
      let ucs2 := instr i
      if ucs2.toNat < 0x80 then convertLoop instr (i + 1) ret (out ++ [ucs2.setWidth 8]) left
      else
        let c := lookupCP fpUnicodeTbl ucs2
        if c = chNul then convertLoop instr (i + 1) 1 (out ++ [chUnderscore]) left
        else convertLoop instr (i + 1) ret (out ++ [c]) left

/-- `ucs2_to_local`: its value, and the bytes stored from `outstr` on. -/
def ucs2ToLocal (instr : ℕ → BitVec 16) (len buflen : BitVec 16) :
    BitVec 16 × List (BitVec 8) :=
  if len = 0 then (0, [chNul])
  -- `! buflen > len`: the negation binds before the comparison
  else if (if buflen = 0 then 1 else 0) > len then (-1, [])
  else convertLoop instr 0 0 [] len.toNat

/-! ### What it does -/

/-- A unit that the code page lacks. -/
def Missing (ucs2 : BitVec 16) : Prop := 0x80 ≤ ucs2.toNat ∧ ucs2 ∉ fpUnicodeTbl

instance (ucs2 : BitVec 16) : Decidable (Missing ucs2) :=
  inferInstanceAs (Decidable (0x80 ≤ ucs2.toNat ∧ ucs2 ∉ fpUnicodeTbl))

/-- The units of a string of the given length. -/
def units (instr : ℕ → BitVec 16) (len : ℕ) : List (BitVec 16) := (List.range len).map instr

@[simp] theorem units_length (instr : ℕ → BitVec 16) (len : ℕ) : (units instr len).length = len := by
  simp [units]

theorem mem_units {instr : ℕ → BitVec 16} {len : ℕ} {u : BitVec 16} :
    u ∈ units instr len ↔ ∃ j < len, instr j = u := by
  simp [units]

/-- The two tables hold the same code points. -/
theorem fpUnicodeTbl_eq : fpUnicodeTbl = Ucs2.fpUnicodeTbl := rfl

theorem fpUnicodeTbl_length : fpUnicodeTbl.length = 128 := by
  simp [fpUnicodeTbl]

/-- The search of `lookupCP` stops inside the table exactly when the code point is there. -/
theorem scan_lt_iff_mem {cp : BitVec 16} :
    Search.scan (fun i => fpUnicodeTbl[i]? == some cp) 0 128 < 128 ↔ cp ∈ fpUnicodeTbl := by
  rw [Search.scan_lt_iff, List.mem_iff_getElem?]
  simp only [Nat.zero_le, true_and, beq_iff_eq]
  constructor
  · rintro ⟨j, -, hj⟩
    exact ⟨j, hj⟩
  · rintro ⟨j, hj⟩
    have hlt := (List.getElem?_eq_some_iff.1 hj).1
    exact ⟨j, fpUnicodeTbl_length ▸ hlt, hj⟩

/-- **`lookupCP` returns the place of the code point**, and `'\0'` only when there is none. -/
theorem lookupCP_spec (cp : BitVec 16) :
    (cp ∉ fpUnicodeTbl ∧ lookupCP fpUnicodeTbl cp = chNul) ∨
      ∃ i < 128, fpUnicodeTbl[i]? = some cp ∧ (lookupCP fpUnicodeTbl cp).toNat = i + 128 := by
  by_cases hmem : cp ∈ fpUnicodeTbl
  · right
    have hlt := scan_lt_iff_mem.2 hmem
    refine ⟨_, hlt, beq_iff_eq.1 (Search.scan_found
      (p := fun i => fpUnicodeTbl[i]? == some cp) hlt), ?_⟩
    rw [lookupCP, if_pos hlt, BitVec.toNat_ofNat]
    omega
  · left
    refine ⟨hmem, ?_⟩
    rw [lookupCP, if_neg fun h => hmem (scan_lt_iff_mem.1 h)]

theorem lookupCP_eq_nul_iff {cp : BitVec 16} :
    lookupCP fpUnicodeTbl cp = chNul ↔ cp ∉ fpUnicodeTbl := by
  rcases lookupCP_spec cp with ⟨hmem, hnul⟩ | ⟨i, -, hi, hval⟩
  · exact iff_of_true hnul hmem
  · refine iff_of_false (fun hnul => ?_) (not_not.2 (List.mem_of_getElem? hi))
    rw [hnul] at hval
    simp [chNul] at hval

/-- The byte stored for one unit; it is the one that the resident part stores. -/
theorem ucs2Char_eq (ucs2 : BitVec 16) : Ucs2.ucs2Char ucs2 =
    if ucs2.toNat < 0x80 then ucs2.setWidth 8
    else if lookupCP fpUnicodeTbl ucs2 = chNul then chUnderscore
    else lookupCP fpUnicodeTbl ucs2 := rfl

/-- **The loop**: the value remembers every replacement, and the bytes are stored one behind the
other. -/
theorem convertLoop_eq (instr : ℕ → BitVec 16) (left : ℕ) : ∀ (i : ℕ) (ret : BitVec 16)
    (out : List (BitVec 8)), convertLoop instr i ret out left =
      (if ∃ u ∈ (List.range' i left).map instr, Missing u then 1 else ret,
        out ++ (((List.range' i left).map instr).map Ucs2.ucs2Char ++ [chNul])) := by
  induction left with
  | zero =>
      intro i ret out
      simp [convertLoop]
  | succ left ih =>
      intro i ret out
      rw [List.range'_succ, List.map_cons, List.map_cons, ucs2Char_eq, List.cons_append,
        List.append_cons]
      simp only [List.exists_mem_cons_iff]
      by_cases hlow : (instr i).toNat < 0x80
      · have hthere : ¬ Missing (instr i) := fun h => absurd h.1 (Nat.not_le.2 hlow)
        simp only [convertLoop, if_pos hlow, ih, hthere, false_or]
      · by_cases hnul : lookupCP fpUnicodeTbl (instr i) = chNul
        · have hmiss : Missing (instr i) := ⟨Nat.not_lt.1 hlow, lookupCP_eq_nul_iff.1 hnul⟩
          simp only [convertLoop, if_neg hlow, if_pos hnul, ih, hmiss, true_or, if_true, ite_self]
        · have hthere : ¬ Missing (instr i) := fun h => hnul (lookupCP_eq_nul_iff.2 h.2)
          simp only [convertLoop, if_neg hlow, if_neg hnul, ih, hthere, false_or]

/-- The bytes that the units of a string are converted to. -/
def converted (instr : ℕ → BitVec 16) (len : ℕ) : List (BitVec 8) :=
  (units instr len).map Ucs2.ucs2Char

@[simp] theorem converted_length (instr : ℕ → BitVec 16) (len : ℕ) :
    (converted instr len).length = len := by
  simp [converted]

/-- **What the converter does**: the check of the buffer has no effect. -/
theorem ucs2ToLocal_eq (instr : ℕ → BitVec 16) (len buflen : BitVec 16) :
    ucs2ToLocal instr len buflen =
      (if ∃ u ∈ units instr len.toNat, Missing u then 1 else 0,
        converted instr len.toNat ++ [chNul]) := by
  have hloop := convertLoop_eq instr len.toNat 0 0 []
  rw [List.nil_append, ← List.range_eq_range', ← units, ← converted] at hloop
  rw [ucs2ToLocal, ← hloop]
  by_cases hlen : len = 0
  · rw [if_pos hlen, hlen]
    rfl
  · have hle : ¬ ((if buflen = 0 then 1 else 0) > len) := by
      split_ifs
      · bv_omega
      · bv_omega
    rw [if_neg hlen, if_neg hle]

theorem ucs2ToLocal_fst_eq_zero_iff {instr : ℕ → BitVec 16} {len buflen : BitVec 16} :
    (ucs2ToLocal instr len buflen).1 = 0 ↔ ∀ u ∈ units instr len.toNat, ¬ Missing u := by
  rw [ucs2ToLocal_eq]
  by_cases h : ∃ u ∈ units instr len.toNat, Missing u
  · obtain ⟨u, hu, hmiss⟩ := h
    have hall : ¬ ∀ u ∈ units instr len.toNat, ¬ Missing u := fun hall => hall u hu hmiss
    rw [if_pos ⟨u, hu, hmiss⟩]
    exact iff_of_false (by simp) hall
  · rw [if_neg h]
    push Not at h
    exact iff_of_true rfl h

/-! ### The buffer -/

/-- The check of the buffer does its work: nothing is stored behind the buffer, a buffer that is
too short is refused with nothing stored, and a buffer that is longer than the string receives the
converted string and its terminator. -/
structure RespectsBuffer (instr : ℕ → BitVec 16) (len buflen : BitVec 16) : Prop where
  inside : (ucs2ToLocal instr len buflen).2.length ≤ buflen.toNat
  refuses : buflen ≤ len → ucs2ToLocal instr len buflen = (-1, [])
  converts : len < buflen → (ucs2ToLocal instr len buflen).1 ≠ -1 ∧
    (ucs2ToLocal instr len buflen).2 = converted instr len.toNat ++ [chNul]

/-- **The buffer is respected exactly when it is longer than the string.** -/
theorem ucs2ToLocal_respectsBuffer_iff (instr : ℕ → BitVec 16) (len buflen : BitVec 16) :
    RespectsBuffer instr len buflen ↔ len < buflen := by
  have hout := ucs2ToLocal_eq instr len buflen
  constructor
  · rintro ⟨-, hrefuses, -⟩
    by_contra hlt
    have hstored := congrArg Prod.snd (hrefuses (BitVec.not_lt.1 hlt))
    rw [hout] at hstored
    simp at hstored
  · intro hlt
    have hnat : len.toNat < buflen.toNat := hlt
    constructor
    · rw [hout]
      simpa using hnat
    · intro hle
      exact absurd hlt (BitVec.not_lt.2 hle)
    · intro _
      rw [hout]
      refine ⟨?_, rfl⟩
      split_ifs
      · simp
      · simp

/-- A string of one letter in a buffer of one byte: two bytes are stored. -/
theorem oneLetter_overruns : (ucs2ToLocal (fun _ => 0x41) 1 1) = (0, [0x41, chNul]) ∧
    ¬ RespectsBuffer (fun _ => 0x41) 1 1 := by
  have hout : ucs2ToLocal (fun _ => 0x41) 1 1 = (0, [0x41, chNul]) := by decide
  refine ⟨hout, ?_⟩
  rintro ⟨hinside, -, -⟩
  rw [hout] at hinside
  exact absurd hinside (by decide)

/-! ### The two converters -/

/-- **The two converters agree on every string**: the transient one stores the bytes of the resident
one and a terminator, and its value tells whether the code page lacks some unit.  None of this
depends on `buflen`. -/
theorem ucs2ToLocal_agrees (instr : ℕ → BitVec 16) (len buflen : BitVec 16) (outstr : Mem) :
    (ucs2ToLocal instr len buflen).2.length = len.toNat + 1 ∧
    (∀ j < len.toNat, (ucs2ToLocal instr len buflen).2[j]? =
      some (cpUcs2ToLocal outstr instr len.toNat j)) ∧
    (ucs2ToLocal instr len buflen).2[len.toNat]? = some chNul ∧
    ((ucs2ToLocal instr len buflen).1 = 1 ↔
      ∃ j < len.toNat, 0x80 ≤ (instr j).toNat ∧ instr j ∉ fpUnicodeTbl) ∧
    ((ucs2ToLocal instr len buflen).1 ≠ 1 → (ucs2ToLocal instr len buflen).1 = 0) := by
  rw [ucs2ToLocal_eq]
  refine ⟨by simp, ?_, ?_, ?_, ?_⟩
  · intro j hj
    rw [List.getElem?_append_left (by simpa using hj), cpUcs2ToLocal_apply, if_pos hj]
    simp [converted, units, hj]
  · rw [List.getElem?_append_right (by simp)]
    simp
  · have hmissing : (∃ u ∈ units instr len.toNat, Missing u) ↔
        ∃ j < len.toNat, 0x80 ≤ (instr j).toNat ∧ instr j ∉ fpUnicodeTbl := by
      constructor
      · rintro ⟨u, hu, hmiss⟩
        obtain ⟨j, hj, rfl⟩ := mem_units.1 hu
        exact ⟨j, hj, hmiss⟩
      · rintro ⟨j, hj, hmiss⟩
        exact ⟨instr j, mem_units.2 ⟨j, hj, rfl⟩, hmiss⟩
    rw [← hmissing]
    split_ifs with h
    · exact iff_of_true rfl h
    · exact iff_of_false (by simp) h
  · intro hne
    split_ifs at hne ⊢
    · exact absurd rfl hne
    · rfl

end Transient

end Vbsmount

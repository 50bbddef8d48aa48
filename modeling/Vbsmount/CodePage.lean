/-
**The code page behind the two tables.**

The table of the converters says which code point each byte of the upper half stands for; the lower
half is ASCII.  Read the other way, this is a partial encoding of the 16-bit units: the entries are
distinct and none of them is an ASCII character.  A conversion that is reported as clean is an
encoding of its string, so nothing is lost in it.

Main definitions:

* `Transient.decode`, `Transient.codePage` — the unit of a byte, and the partial encoding;
* `Transient.Latin1` — the letters that the code page is meant to hold;
* `Transient.Survives` — a conversion in which nothing is lost.

Main results:

* `Transient.ucs2ToLocal_clean` — a clean conversion is an encoding;
* `Transient.ucs2ToLocal_lossless` — **a clean conversion is lossless, in both directions**;
* `Transient.latin1_survives_iff` — **a Latin-1 string survives exactly when it has no `Á` in it**:
  in its place the table holds a geometric shape.
-/

import Vbsmount.Ucs2ToLocal
import Vbsmount.Lib.Encoding

set_option relaxedAutoImplicit false
set_option autoImplicit false

namespace Vbsmount

open Bytes Encoding

namespace Transient

/-! ### The code page -/

/-- The code point that a byte stands for. -/
def decode (tbl : List (BitVec 16)) (b : BitVec 8) : BitVec 16 :=
  if b.toNat < 0x80 then b.setWidth 16 else tbl.getD (b.toNat - 0x80) 0

/-- The code of a unit, if the code page has one. -/
def encode (u : BitVec 16) : Option (BitVec 8) := if Missing u then none else some (Ucs2.ucs2Char u)

/-- The byte stands for the unit: in the lower half as it is, in the upper half by its place in the
table. -/
def HasCode (u : BitVec 16) (b : BitVec 8) : Prop :=
  (u.toNat < 0x80 ∧ b.toNat = u.toNat) ∨
    ∃ i, fpUnicodeTbl[i]? = some u ∧ b.toNat = i + 0x80

/-- The entries of the table are distinct. -/
theorem fpUnicodeTbl_nodup : fpUnicodeTbl.Nodup := by decide +kernel

/-- No entry of the table is an ASCII character. -/
theorem le_of_mem_fpUnicodeTbl {u : BitVec 16} (hu : u ∈ fpUnicodeTbl) : 0x80 ≤ u.toNat := by
  have hall : (fpUnicodeTbl.all fun u => decide (0x80 ≤ u.toNat)) = true := by decide
  exact of_decide_eq_true (List.all_eq_true.1 hall u hu)

theorem decode_eq_iff {b : BitVec 8} {u : BitVec 16} : decode fpUnicodeTbl b = u ↔ HasCode u b := by
  have hb8 := b.isLt
  by_cases hb : b.toNat < 0x80
  · rw [decode, if_pos hb]
    constructor
    · rintro rfl
      left
      rw [BitVec.toNat_setWidth, Nat.mod_eq_of_lt (by omega)]
      exact ⟨hb, rfl⟩
    · rintro (⟨-, hval⟩ | ⟨i, -, hval⟩)
      · refine BitVec.eq_of_toNat_eq ?_
        rw [BitVec.toNat_setWidth, Nat.mod_eq_of_lt (by omega), hval]
      · omega
  · rw [decode, if_neg hb, List.getD_eq_getElem?_getD]
    constructor
    · intro hu
      have hlt : b.toNat - 0x80 < fpUnicodeTbl.length := by
        rw [fpUnicodeTbl_length]
        omega
      rw [List.getElem?_eq_getElem hlt, Option.getD_some] at hu
      exact Or.inr ⟨_, hu ▸ List.getElem?_eq_getElem hlt, by omega⟩
    · rintro (⟨hlow, hval⟩ | ⟨i, hi, hval⟩)
      · omega
      · have hplace : b.toNat - 0x80 = i := by omega
        rw [hplace, hi, Option.getD_some]

theorem encode_eq_some_iff {b : BitVec 8} {u : BitVec 16} : encode u = some b ↔ HasCode u b := by
  have hb8 := b.isLt
  by_cases hlow : u.toNat < 0x80
  · have hthere : ¬ Missing u := fun h => absurd h.1 (Nat.not_le.2 hlow)
    have hval : (u.setWidth 8).toNat = u.toNat := by
      rw [BitVec.toNat_setWidth, Nat.mod_eq_of_lt (by omega)]
    rw [encode, if_neg hthere, ucs2Char_eq, if_pos hlow, Option.some.injEq]
    constructor
    · rintro rfl
      exact Or.inl ⟨hlow, hval⟩
    · rintro (⟨-, hb⟩ | ⟨i, hi, -⟩)
      · exact BitVec.eq_of_toNat_eq (hval.trans hb.symm)
      · exact absurd (le_of_mem_fpUnicodeTbl (List.mem_of_getElem? hi)) (Nat.not_le.2 hlow)
  · rcases lookupCP_spec u with ⟨hmem, -⟩ | ⟨j, hj, hu, hval⟩
    · rw [encode, if_pos ⟨Nat.not_lt.1 hlow, hmem⟩]
      refine iff_of_false (by simp) ?_
      rintro (⟨h, -⟩ | ⟨i, hi, -⟩)
      · exact hlow h
      · exact hmem (List.mem_of_getElem? hi)
    · have hmem := List.mem_of_getElem? hu
      have hthere : ¬ Missing u := fun h => h.2 hmem
      have hne : lookupCP fpUnicodeTbl u ≠ chNul := fun h => lookupCP_eq_nul_iff.1 h hmem
      rw [encode, if_neg hthere, ucs2Char_eq, if_neg hlow, if_neg hne, Option.some.injEq]
      constructor
      · rintro rfl
        exact Or.inr ⟨j, hu, hval⟩
      · rintro (⟨h, -⟩ | ⟨i, hi, hb⟩)
        · exact absurd h hlow
        · -- the entries are distinct, so the place is the one that was found
          have hij : j = i := (List.getElem?_inj (fpUnicodeTbl_length ▸ hj)
            fpUnicodeTbl_nodup).1 (hu.trans hi.symm)
          refine BitVec.eq_of_toNat_eq ?_
          rw [hval, hb, hij]

/-- The code page, as a partial encoding of the units. -/
def codePage : BitVec 16 ≃. BitVec 8 where
  toFun := encode
  invFun b := some (decode fpUnicodeTbl b)
  inv u b := by
    rw [Option.some.injEq, decode_eq_iff, encode_eq_some_iff]

theorem codePage_apply (u : BitVec 16) : codePage u = encode u := rfl

theorem codePage_isDecoder : IsDecoder codePage (decode fpUnicodeTbl) := fun _ =>
  encode_eq_some_iff.2 (decode_eq_iff.1 rfl)

theorem isSome_codePage_iff {u : BitVec 16} : (codePage u).isSome ↔ ¬ Missing u := by
  rw [codePage_apply, encode]
  split_ifs with h
  · exact iff_of_false (by simp) (not_not.2 h)
  · exact iff_of_true rfl h

/-! ### Clean conversions -/

/-- **A clean conversion is an encoding**, and the strings that have an encoding are converted
cleanly. -/
theorem ucs2ToLocal_clean (instr : ℕ → BitVec 16) (len buflen : BitVec 16) :
    (ucs2ToLocal instr len buflen).1 = 0 ↔
      Encodes codePage (units instr len.toNat) (converted instr len.toNat) := by
  rw [ucs2ToLocal_fst_eq_zero_iff]
  constructor
  · intro hthere
    rw [Encodes, converted, List.forall₂_map_right_iff, List.forall₂_same]
    intro u hu
    rw [codePage_apply, encode, if_neg (hthere u hu)]
    rfl
  · intro h u hu
    exact isSome_codePage_iff.1 (exists_encodes_iff.1 ⟨_, h⟩ u hu)

/-- The bytes of the string, without the terminator. -/
theorem take_ucs2ToLocal (instr : ℕ → BitVec 16) (len buflen : BitVec 16) :
    (ucs2ToLocal instr len buflen).2.take len.toNat = converted instr len.toNat := by
  rw [ucs2ToLocal_eq]
  exact List.take_left' (converted_length ..)

/-- **A clean conversion is lossless**: decoding gives the string back, two strings with clean
conversions to the same bytes are the same, and every string of bytes comes back from its decoded
form. -/
theorem ucs2ToLocal_lossless :
    (∀ (instr : ℕ → BitVec 16) (len buflen : BitVec 16), (ucs2ToLocal instr len buflen).1 = 0 →
      ((ucs2ToLocal instr len buflen).2.take len.toNat).map (decode fpUnicodeTbl) =
        units instr len.toNat) ∧
    (∀ (instr instr' : ℕ → BitVec 16) (len len' buflen buflen' : BitVec 16),
      (ucs2ToLocal instr len buflen).1 = 0 → (ucs2ToLocal instr' len' buflen').1 = 0 →
        (ucs2ToLocal instr len buflen).2 = (ucs2ToLocal instr' len' buflen').2 →
          units instr len.toNat = units instr' len'.toNat) ∧
    ∀ (bytes : List (BitVec 8)) (instr : ℕ → BitVec 16) (len buflen : BitVec 16),
      units instr len.toNat = bytes.map (decode fpUnicodeTbl) →
        ucs2ToLocal instr len buflen = (0, bytes ++ [chNul]) := by
  refine ⟨?_, ?_, ?_⟩
  · intro instr len buflen hclean
    rw [take_ucs2ToLocal]
    exact (encodes_iff_map codePage_isDecoder).1 ((ucs2ToLocal_clean ..).1 hclean)
  · intro instr instr' len len' buflen buflen' hclean hclean' hbytes
    rw [ucs2ToLocal_eq, ucs2ToLocal_eq] at hbytes
    have hconverted := List.append_inj_left' hbytes rfl
    have h := (ucs2ToLocal_clean ..).1 hclean
    rw [hconverted] at h
    exact h.eq_left ((ucs2ToLocal_clean ..).1 hclean')
  · intro bytes instr len buflen hunits
    have hbytes : Encodes codePage (units instr len.toNat) bytes :=
      (encodes_iff_map codePage_isDecoder).2 hunits.symm
    have hclean : (ucs2ToLocal instr len buflen).1 = 0 :=
      ucs2ToLocal_fst_eq_zero_iff.2 fun u hu =>
        isSome_codePage_iff.1 (exists_encodes_iff.1 ⟨bytes, hbytes⟩ u hu)
    have hconverted : converted instr len.toNat = bytes :=
      ((ucs2ToLocal_clean ..).1 hclean).eq_right hbytes
    refine Prod.ext hclean ?_
    rw [ucs2ToLocal_eq, hconverted]

/-- The name `Año 1é`. -/
def sampleName (j : ℕ) : BitVec 16 := [0x0041, 0x00F1, 0x006F, 0x0020, 0x0031, 0x00E9].getD j 0

/-- It is converted cleanly and comes back, and no other name is converted cleanly to its bytes. -/
theorem sampleName_lossless :
    ucs2ToLocal sampleName 6 7 = (0, [0x41, 0xA4, 0x6F, 0x20, 0x31, 0x82, chNul]) ∧
      ((ucs2ToLocal sampleName 6 7).2.take 6).map (decode fpUnicodeTbl) =
        [0x0041, 0x00F1, 0x006F, 0x0020, 0x0031, 0x00E9] ∧
      ∀ (instr : ℕ → BitVec 16) (len buflen : BitVec 16), (ucs2ToLocal instr len buflen).1 = 0 →
        (ucs2ToLocal instr len buflen).2 = [0x41, 0xA4, 0x6F, 0x20, 0x31, 0x82, chNul] →
          units instr len.toNat = [0x0041, 0x00F1, 0x006F, 0x0020, 0x0031, 0x00E9] := by
  obtain ⟨hback, hinjective, hbytes⟩ := ucs2ToLocal_lossless
  have hconverted := hbytes [0x41, 0xA4, 0x6F, 0x20, 0x31, 0x82] sampleName 6 7 (by decide)
  have hclean : (ucs2ToLocal sampleName 6 7).1 = 0 := congrArg Prod.fst hconverted
  refine ⟨hconverted, hback sampleName 6 7 hclean, fun instr len buflen hclean' hsame => ?_⟩
  exact hinjective instr sampleName len 6 buflen 7 hclean' hclean
    (hsame.trans (congrArg Prod.snd hconverted).symm)

/-! ### Latin-1 -/

/-- An ASCII character, or one of the upper half of Latin-1. -/
def Latin1 (u : BitVec 16) : Prop := u.toNat < 0x80 ∨ (0x00A0 ≤ u.toNat ∧ u.toNat ≤ 0x00FF)

/-- **The table lacks one letter of Latin-1**, the `Á`. -/
theorem missing_iff_of_latin1 {u : BitVec 16} (hu : Latin1 u) : Missing u ↔ u = 0x00C1 := by
  have hlacks : ((List.range' 0x00A0 0x60).filter fun k =>
      decide (BitVec.ofNat 16 k ∉ fpUnicodeTbl)) = [0x00C1] := by decide +kernel
  rcases hu with hlow | ⟨hle, hge⟩
  · refine iff_of_false (fun h => absurd h.1 (Nat.not_le.2 hlow)) ?_
    rintro rfl
    exact absurd hlow (by decide)
  · have hmem : u.toNat ∈ List.range' 0x00A0 0x60 := by
      rw [List.mem_range'_1]
      omega
    have hval : BitVec.ofNat 16 u.toNat = u := by simp
    have hiff : u ∉ fpUnicodeTbl ↔ u.toNat = 0x00C1 := by
      rw [← List.mem_singleton, ← hlacks, List.mem_filter, hval, decide_eq_true_iff]
      exact (and_iff_right hmem).symm
    constructor
    · rintro ⟨-, h⟩
      exact BitVec.eq_of_toNat_eq (hiff.1 h)
    · rintro rfl
      exact ⟨by decide, hiff.2 rfl⟩

/-- Nothing is lost: the transient converter reports a clean conversion, the resident one puts the
replacement character in no place where the string does not have it, and the bytes of both are
mapped back to the string. -/
structure Survives (instr : ℕ → BitVec 16) (len buflen : BitVec 16) (outstr : Mem) : Prop where
  clean : (ucs2ToLocal instr len buflen).1 = 0
  back : ((ucs2ToLocal instr len buflen).2.take len.toNat).map (decode fpUnicodeTbl) =
    units instr len.toNat
  kept : ∀ j < len.toNat, cpUcs2ToLocal outstr instr len.toNat j = chUnderscore →
    instr j = chUnderscore.setWidth 16
  resident_back : ∀ j < len.toNat,
    decode Ucs2.fpUnicodeTbl (cpUcs2ToLocal outstr instr len.toNat j) = instr j

/-- **A Latin-1 string survives exactly when it has no `Á` in it.** -/
theorem latin1_survives_iff {instr : ℕ → BitVec 16} {len : BitVec 16} (buflen : BitVec 16)
    (outstr : Mem) (hlatin : ∀ j < len.toNat, Latin1 (instr j)) :
    Survives instr len buflen outstr ↔ ∀ j < len.toNat, instr j ≠ 0x00C1 := by
  have hclean : (ucs2ToLocal instr len buflen).1 = 0 ↔ ∀ j < len.toNat, instr j ≠ 0x00C1 := by
    rw [ucs2ToLocal_fst_eq_zero_iff]
    constructor
    · intro h j hj heq
      exact h _ (mem_units.2 ⟨j, hj, rfl⟩) ((missing_iff_of_latin1 (hlatin j hj)).2 heq)
    · intro h u hu hmiss
      obtain ⟨j, hj, rfl⟩ := mem_units.1 hu
      exact h j hj ((missing_iff_of_latin1 (hlatin j hj)).1 hmiss)
  rw [← hclean]
  constructor
  · exact Survives.clean
  · intro hret
    have hresident (j : ℕ) (hj : j < len.toNat) :
        decode fpUnicodeTbl (cpUcs2ToLocal outstr instr len.toNat j) = instr j := by
      have hthere : ¬ Missing (instr j) :=
        ucs2ToLocal_fst_eq_zero_iff.1 hret _ (mem_units.2 ⟨j, hj, rfl⟩)
      rw [cpUcs2ToLocal_apply, if_pos hj, decode_eq_iff, ← encode_eq_some_iff, encode,
        if_neg hthere]
    refine ⟨hret, ?_, ?_, ?_⟩
    · rw [take_ucs2ToLocal]
      exact (encodes_iff_map codePage_isDecoder).1 ((ucs2ToLocal_clean ..).1 hret)
    · intro j hj hunderscore
      rw [← hresident j hj, hunderscore]
      rfl
    · rw [← fpUnicodeTbl_eq]
      exact hresident

/-- The name `Año 1é` survives, -/
theorem sampleName_survives : Survives sampleName 6 7 fun _ => 0 :=
  have hlatin : ∀ j < (6 : BitVec 16).toNat, (sampleName j).toNat < 0x80 ∨
      (0x00A0 ≤ (sampleName j).toNat ∧ (sampleName j).toNat ≤ 0x00FF) := by decide
  (latin1_survives_iff 7 (fun _ => 0) hlatin).2 (by decide)

/-- and the name `Á` does not: both converters make it `_`. -/
theorem aAcute_lost : (∀ j < (1 : BitVec 16).toNat, Latin1 ((fun _ => 0x00C1) j)) ∧
    ucs2ToLocal (fun _ => 0x00C1) 1 2 = (1, [chUnderscore, chNul]) ∧
    cpUcs2ToLocal (fun _ => 0) (fun _ => 0x00C1) 1 0 = chUnderscore ∧
    ¬ Survives (fun _ => 0x00C1) 1 2 fun _ => 0 := by
  have hout : ucs2ToLocal (fun _ => 0x00C1) 1 2 = (1, [chUnderscore, chNul]) := by decide
  have hlatin : Latin1 0x00C1 := Or.inr ⟨by decide, by decide⟩
  refine ⟨fun _ _ => hlatin, hout, by decide, ?_⟩
  rintro ⟨hclean, -⟩
  rw [hout] at hclean
  exact absurd hclean (by decide)

end Transient

end Vbsmount

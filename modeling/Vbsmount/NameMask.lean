/-
**Matching names against masks (`MatchNameMask`).**

The redirector compares names and search masks as FCB names, eleven bytes each.  A mask may hold the
character `'?'`, which is good for any character, and for the padding as well.  On names of the 8.3
form this is the match of patterns in each of the two fields.

Main definitions:

* `matchNameMask`, `fcbNameHasWildCards` — the source's functions;
* `Name83.Matches` — the match of a name with a pattern.

Main results:

* `matchNameMask_eq_one_iff` — what the loop compares;
* `matchNameMask_fillFcbName_iff` — **the comparison of FCB names is the match of the names**;
* `fcbNameHasWildCards_write_iff`, `matchNameMask_of_noWildCards` — a mask without wildcards is
  matched by the name itself only.
-/

import Vbsmount.FcbName83
import Vbsmount.Lib.Wildcard

set_option relaxedAutoImplicit false
set_option autoImplicit false

namespace Vbsmount

open Bytes CString

/-- The character `'?'`. -/
def chQuestion : BitVec 8 := 0x3F

/-! ### The source's functions -/

/-- The loop of `MatchNameMask`, from byte `i` with `left` bytes to go. -/
def matchLoop (fname mask : Mem) (i : ℕ) : ℕ → BitVec 16
  | 0 => 1
  | left + 1 =>
      if fname i ≠ mask i ∧ mask i ≠ chQuestion then 0 else matchLoop fname mask (i + 1) left

/-- `MatchNameMask`. -/
def matchNameMask (fname mask : Mem) : BitVec 16 := matchLoop fname mask 0 11

/-- The loop of `FcbNameHasWildCards`. -/
def wildCardLoop (fcbName : Mem) (i : ℕ) : ℕ → BitVec 16
  | 0 => 0
  | left + 1 => if fcbName i = chQuestion then 1 else wildCardLoop fcbName (i + 1) left

/-- `FcbNameHasWildCards`. -/
def fcbNameHasWildCards (fcbName : Mem) : BitVec 16 := wildCardLoop fcbName 0 11

/-- What holds of the bytes a loop has to go holds of the first one and of the others. -/
theorem forall_window_succ {P : ℕ → Prop} {i left : ℕ} :
    (∀ j, i ≤ j → j < i + (left + 1) → P j) ↔ P i ∧ ∀ j, i + 1 ≤ j → j < i + 1 + left → P j := by
  constructor
  · intro h
    exact ⟨h i le_rfl (by omega), fun j h₁ h₂ => h j (by omega) (by omega)⟩
  · intro h j h₁ h₂
    rcases Nat.eq_or_lt_of_le h₁ with rfl | hlt
    · exact h.1
    · exact h.2 j hlt (by omega)

theorem matchLoop_eq_one_iff (fname mask : Mem) (i left : ℕ) :
    matchLoop fname mask i left = 1 ↔
      ∀ j, i ≤ j → j < i + left → mask j = chQuestion ∨ fname j = mask j := by
  induction left generalizing i with
  | zero =>
      simp only [matchLoop, true_iff]
      intro j h₁ h₂
      omega
  | succ left ih =>
      rw [matchLoop, forall_window_succ, ← ih]
      by_cases hbyte : mask i = chQuestion ∨ fname i = mask i
      · rw [if_neg (by tauto)]
        exact (and_iff_right hbyte).symm
      · -- the first byte that does not match ends the loop
        rw [if_pos (by tauto)]
        exact iff_of_false (by decide) fun h => hbyte h.1

/-- `MatchNameMask` compares byte by byte. -/
theorem matchNameMask_eq_one_iff (fname mask : Mem) :
    matchNameMask fname mask = 1 ↔ ∀ j < 11, mask j = chQuestion ∨ fname j = mask j := by
  rw [matchNameMask, matchLoop_eq_one_iff, Nat.zero_add]
  exact forall_congr' fun j => forall_prop_of_true j.zero_le

/-- `FcbNameHasWildCards` searches the bytes for the wildcard. -/
theorem wildCardLoop_eq_zero_iff (fcbName : Mem) (i left : ℕ) :
    wildCardLoop fcbName i left = 0 ↔ chQuestion ∉ field fcbName i left := by
  induction left generalizing i with
  | zero => simp [wildCardLoop, field]
  | succ left ih =>
      rw [wildCardLoop, field_succ, List.mem_cons, not_or, ← ih]
      by_cases hbyte : fcbName i = chQuestion
      · rw [if_pos hbyte]
        exact iff_of_false (by decide) fun h => h.1 hbyte.symm
      · rw [if_neg hbyte]
        exact (and_iff_right (Ne.symm hbyte)).symm

/-! ### Names and patterns -/

namespace Name83

/-- The pattern matches the name: its base the base, and its extension the extension. -/
def Matches (pattern name : Name83) : Prop :=
  Wildcard.Matches chQuestion pattern.base name.base ∧
    Wildcard.Matches chQuestion pattern.ext name.ext

instance (pattern name : Name83) : Decidable (pattern.Matches name) :=
  inferInstanceAs (Decidable (_ ∧ _))

end Name83

section

variable {f g : Mem} {o w : ℕ}

theorem getElem?_field (f : Mem) (o : ℕ) {i : ℕ} (hi : i < w) :
    (field f o w)[i]? = some (f (o + i)) := by
  simp [field, hi]

/-- The comparison of two fields, byte by byte. -/
theorem compare_field_iff {l l' : List (BitVec 8)} (hf : field f o w = l) (hg : field g o w = l') :
    (∀ i < w, g (o + i) = chQuestion ∨ f (o + i) = g (o + i)) ↔
      ∀ i < w, l'[i]? = some chQuestion ∨ l[i]? = l'[i]? := by
  subst hf hg
  refine forall₂_congr fun i hi => ?_
  rw [getElem?_field f o hi, getElem?_field g o hi, Option.some_inj, Option.some_inj]

end

/-- A property of all eleven bytes is one of the two fields. -/
theorem forall_lt_eleven {P : ℕ → Prop} :
    (∀ j < 11, P j) ↔ (∀ i < 8, P (0 + i)) ∧ ∀ i < 3, P (8 + i) := by
  constructor
  · intro h
    exact ⟨fun i hi => h (0 + i) (by omega), fun i hi => h (8 + i) (by omega)⟩
  · intro h j hj
    rcases Nat.lt_or_ge j 8 with hlt | hge
    · have hbase := h.1 j hlt
      rwa [Nat.zero_add] at hbase
    · have hext := h.2 (j - 8) (by omega)
      rwa [Nat.add_sub_cancel' hge] at hext

section

variable (name pattern : Name83) (fcb fcb' : Mem)

/-- The comparison of two FCB names is the match of the names they were filled with. -/
theorem matchNameMask_write_iff :
    matchNameMask (fcb.write 0 name.fcb) (fcb'.write 0 pattern.fcb) = 1 ↔ pattern.Matches name := by
  have hbase : Wildcard.Matches chQuestion pattern.base name.base ↔ _ :=
    Wildcard.matches_iff_pad (by decide) pattern.blank_notMem_base name.blank_notMem_base
      pattern.base_le name.base_le
  have hext : Wildcard.Matches chQuestion pattern.ext name.ext ↔ _ :=
    Wildcard.matches_iff_pad (by decide) pattern.blank_notMem_ext name.blank_notMem_ext
      pattern.ext_le name.ext_le
  obtain ⟨hf, hf'⟩ := field_fcb name fcb
  obtain ⟨hg, hg'⟩ := field_fcb pattern fcb'
  rw [matchNameMask_eq_one_iff, forall_lt_eleven, compare_field_iff hf hg, compare_field_iff hf' hg',
    Name83.Matches, hbase, hext]

/-- `FcbNameHasWildCards` finds the wildcards of the pattern. -/
theorem fcbNameHasWildCards_write_iff :
    fcbNameHasWildCards (fcb.write 0 pattern.fcb) = 0 ↔
      chQuestion ∉ pattern.base ∧ chQuestion ∉ pattern.ext := by
  have hpad (w : ℕ) (l : List (BitVec 8)) : chQuestion ∈ pad chBlank w l ↔ chQuestion ∈ l :=
    Wildcard.mem_pad_iff (by decide) w
  rw [fcbNameHasWildCards, wildCardLoop_eq_zero_iff, field_write_fcb, Name83.fcb, List.mem_append,
    not_or, hpad, hpad]

variable (dir dir' : Str chNul) (rest rest' : List (BitVec 8))

/-- **The wildcard match on FCB names is the match of the names**: for every two paths, one to a
name and one to a pattern of the 8.3 form, and whatever the FCBs have held before. -/
theorem matchNameMask_fillFcbName_iff :
    matchNameMask (fillFcbName fcb (name.path dir rest))
        (fillFcbName fcb' (pattern.path dir' rest')) = 1 ↔ pattern.Matches name := by
  rw [fillFcbName_path, fillFcbName_path, matchNameMask_write_iff]

/-- **A mask without wildcards is matched by the name itself only.** -/
theorem matchNameMask_of_noWildCards
    (h : fcbNameHasWildCards (fillFcbName fcb' (pattern.path dir' rest')) = 0) :
    matchNameMask (fillFcbName fcb (name.path dir rest))
        (fillFcbName fcb' (pattern.path dir' rest')) = 1 ↔
      name.base = pattern.base ∧ name.ext = pattern.ext := by
  rw [fillFcbName_path] at h ⊢
  obtain ⟨hbase, hext⟩ := (fcbNameHasWildCards_write_iff pattern fcb').1 h
  rw [fillFcbName_path, matchNameMask_write_iff, Name83.Matches, Wildcard.matches_iff_eq hbase,
    Wildcard.matches_iff_eq hext]

end

/-- The name `A.B`, in the root directory. -/
def nameAB : Name83 where
  base := [0x41]
  ext := [0x42]
  base_le := by decide
  ext_le := by decide
  base_ordinary := by simp [OrdinaryChar, chDot, chBlank, chBackslash, chNul]
  ext_ordinary := by simp [OrdinaryChar, chDot, chBlank, chBackslash, chNul]

/-- The name `A.C`. -/
def nameAC : Name83 where
  base := [0x41]
  ext := [0x43]
  base_le := by decide
  ext_le := by decide
  base_ordinary := by simp [OrdinaryChar, chDot, chBlank, chBackslash, chNul]
  ext_ordinary := by simp [OrdinaryChar, chDot, chBlank, chBackslash, chNul]

/-- The mask `A.B` is matched by that name in the root directory of a drive, and not by `A.C`. -/
theorem matchNameMask_of_noWildCards_AB :
    matchNameMask (fillFcbName (fun _ => 0) (nameAB.path ⟨[0x45, 0x3A], by decide⟩ []))
        (fillFcbName (fun _ => 0x3F) (nameAB.path ⟨[], List.not_mem_nil⟩ [0x5A])) = 1 ∧
      matchNameMask (fillFcbName (fun _ => 0) (nameAC.path ⟨[0x45, 0x3A], by decide⟩ []))
        (fillFcbName (fun _ => 0x3F) (nameAB.path ⟨[], List.not_mem_nil⟩ [0x5A])) ≠ 1 := by
  have hmask : fcbNameHasWildCards
      (fillFcbName (fun _ => 0x3F) (nameAB.path ⟨[], List.not_mem_nil⟩ [0x5A])) = 0 := by
    decide
  have hne : nameAC.ext ≠ nameAB.ext := by decide
  exact ⟨(matchNameMask_of_noWildCards _ _ _ _ _ _ _ _ hmask).2 ⟨rfl, rfl⟩,
    fun h => hne ((matchNameMask_of_noWildCards _ _ _ _ _ _ _ _ hmask).1 h).2⟩

end Vbsmount

/-
**Which FCB names survive the way through a path and back.**

`MakeFullPath` drops every blank of an FCB name and writes a dot only before a nonblank byte 8;
`FillFcbName` looks for the last backslash, pads to byte 8 at a dot and pads the rest.  The two
rules agree on exactly those names whose two fields carry their blanks at the end and that contain
none of the characters with a meaning of their own.

* `field` — a part of an FCB name, as a list;
* `emitLoop_eq` — what `MakeFullPath` writes for a name: both fields without their blanks, with the
  dot in between when the extension starts with a character;
* `mem_fcbCells` — `FillFcbName` stores blanks and characters of the last component, never a dot;
* `fillFcbName_makeFullPath_iff` — **the round trip, for every directory and every name**.
-/

import Vbsmount.FcbName

set_option relaxedAutoImplicit false
set_option autoImplicit false

namespace Vbsmount

open Bytes CString

/-! ### The fields of a name -/

/-- The bytes `a, …, a + n - 1` of an FCB name. -/
def field (f : Mem) (a n : ℕ) : List (BitVec 8) := (List.range' a n).map f

@[simp] theorem field_length (f : Mem) (a n : ℕ) : (field f a n).length = n := by
  simp [field]

theorem field_succ (f : Mem) (a n : ℕ) : field f a (n + 1) = f a :: field f (a + 1) n := by
  simp [field, List.range'_succ]

theorem field_add (f : Mem) (a m n : ℕ) : field f a (m + n) = field f a m ++ field f (a + m) n := by
  rw [field, field, field, ← List.map_append, List.range'_append_1]

theorem mem_field {f : Mem} {a n : ℕ} {b : BitVec 8} :
    b ∈ field f a n ↔ ∃ i, a ≤ i ∧ i < a + n ∧ f i = b := by
  simp only [field, List.mem_map, List.mem_range'_1, and_assoc]

/-- A list is a part of the name when it agrees with it cell by cell. -/
theorem eq_field_iff {l : List (BitVec 8)} {f : Mem} {n : ℕ} (h : l.length = n) :
    l = field f 0 n ↔ ∀ i (hi : i < n), l[i] = f i := by
  constructor
  · rintro hl i hi
    simp [hl, field]
  · intro hl
    refine List.ext_getElem (by simp [h]) ?_
    intro i h₁ h₂
    simpa [field] using hl i (by omega)

/-- The blanks of a field form a suffix of it, in terms of the indices of the name. -/
theorem blankSuffix_field_iff {f : Mem} {a n : ℕ} : BlankSuffix chBlank (field f a n) ↔
    ∀ i j, a ≤ i → i ≤ j → j < a + n → f i = chBlank → f j = chBlank := by
  rw [BlankSuffix, List.pairwise_iff_getElem]
  constructor
  · intro h i j hai hij hj hi
    obtain ⟨i, rfl⟩ : ∃ k, i = a + k := ⟨i - a, by omega⟩
    obtain ⟨j, rfl⟩ : ∃ k, j = a + k := ⟨j - a, by omega⟩
    rcases Nat.eq_or_lt_of_le hij with heq | hlt
    · rw [← heq]
      exact hi
    · have := h i j (by simp; omega) (by simp; omega) (by omega)
      simp only [field, List.getElem_map, List.getElem_range', Nat.one_mul] at this
      exact this hi
  · intro h i j hi hj hij
    simp only [field_length] at hi hj
    simp only [field, List.getElem_map, List.getElem_range', Nat.one_mul]
    exact h (a + i) (a + j) (by omega) (by omega) (by omega)

/-! ### What `MakeFullPath` writes -/

theorem emitLoop_add (f : Mem) (m n : ℕ) : ∀ i,
    emitLoop f i (m + n) = emitLoop f i m ++ emitLoop f (i + m) n := by
  induction m with
  | zero => intro i; simp [emitLoop]
  | succ m ih =>
      intro i
      rw [Nat.add_right_comm m 1 n, emitLoop, emitLoop, ih (i + 1)]
      have hi : i + 1 + m = i + (m + 1) := by omega
      rw [hi]
      split_ifs <;> rfl

/-- Away from byte 8 the loop writes the field without its blanks. -/
theorem emitLoop_of_ne (f : Mem) (left : ℕ) : ∀ i, 8 < i ∨ i + left ≤ 8 →
    emitLoop f i left = keep chBlank (field f i left) := by
  induction left with
  | zero => intro i _; simp [emitLoop, field, keep]
  | succ left ih =>
      intro i hi
      rw [emitLoop, ih (i + 1) (by omega), field_succ, if_neg (by omega : ¬ i = 8)]
      by_cases hb : f i = chBlank
      · rw [if_neg (by simpa using hb), hb, keep_cons_blank]
      · rw [if_pos hb, keep_cons_of_ne hb]

/-- **What `MakeFullPath` writes for a name.** -/
theorem emitLoop_eq (f : Mem) : emitLoop f 0 11 =
    keep chBlank (field f 0 8) ++ ((if f 8 = chBlank then [] else [chDot]) ++
      keep chBlank (field f 8 3)) := by
  have hbase : emitLoop f 0 8 = keep chBlank (field f 0 8) := emitLoop_of_ne f 8 0 (by omega)
  have hrest : emitLoop f 9 2 = keep chBlank (field f 9 2) := emitLoop_of_ne f 2 9 (by omega)
  have hext : emitLoop f 8 3 =
      (if f 8 = chBlank then [] else [chDot]) ++ keep chBlank (field f 8 3) := by
    rw [emitLoop, hrest, field_succ f 8 2]
    by_cases hb : f 8 = chBlank
    · simp [hb, keep_cons_blank]
    · simp [hb, keep_cons_of_ne]
  rw [← hbase, ← hext]
  exact emitLoop_add f 8 3 0

theorem mem_emitLoop {f : Mem} {b : BitVec 8} (h : b ∈ emitLoop f 0 11) :
    b = chDot ∨ ∃ i, i < 11 ∧ f i = b := by
  have hfield (a n : ℕ) (hb : b ∈ keep chBlank (field f a n)) (han : a + n ≤ 11) :
      ∃ i, i < 11 ∧ f i = b := by
    obtain ⟨i, -, hi, rfl⟩ := mem_field.1 (mem_keep.1 hb).1
    exact ⟨i, by omega, rfl⟩
  rw [emitLoop_eq] at h
  rcases List.mem_append.1 h with h | h
  · exact Or.inr (hfield 0 8 h (by omega))
  · rcases List.mem_append.1 h with h | h
    · left
      split_ifs at h
      · simp at h
      · simpa using h
    · exact Or.inr (hfield 8 3 h (by omega))

/-! ### What `FillFcbName` stores -/

/-- `FillFcbName` stores blanks and characters of the last component, never a dot. -/
theorem mem_fcbCells {b : BitVec 8} {p : List (BitVec 8)} {i : ℕ} (h : b ∈ fcbCells i p) :
    b = chBlank ∨ (b ∈ text chNul p ∧ b ≠ chDot) := by
  induction p generalizing i with
  | nil => simp [fcbCells] at h
  | cons c p ih =>
      by_cases h0 : c = chNul
      · simp [fcbCells, h0] at h
      · by_cases hdot : c = chDot
        · rw [fcbCells, if_neg h0, if_pos hdot] at h
          rcases List.mem_append.1 h with h | h
          · exact Or.inl (List.eq_of_mem_replicate h)
          · rcases ih h with h | ⟨h, hne⟩
            · exact Or.inl h
            · exact Or.inr ⟨by simp [text, h0, h], hne⟩
        · rw [fcbCells, if_neg h0, if_neg hdot] at h
          rcases List.mem_cons.1 h with rfl | h
          · exact Or.inr ⟨by simp [text, h0], hdot⟩
          · rcases ih h with h | ⟨h, hne⟩
            · exact Or.inl h
            · exact Or.inr ⟨by simp [text, h0, h], hne⟩

/-- Ordinary characters are copied. -/
theorem fcbCells_append {s : List (BitVec 8)} (hnul : chNul ∉ s) (hdot : chDot ∉ s)
    (i : ℕ) (q : List (BitVec 8)) : fcbCells i (s ++ q) = s ++ fcbCells (i + s.length) q := by
  induction s generalizing i with
  | nil => rfl
  | cons c s ih =>
      have h0 : c ≠ chNul := fun h => hnul (h ▸ List.mem_cons_self ..)
      have hd : c ≠ chDot := fun h => hdot (h ▸ List.mem_cons_self ..)
      have ih' := ih (fun h => hnul (List.mem_cons_of_mem _ h))
        (fun h => hdot (List.mem_cons_of_mem _ h)) (i + 1)
      rw [List.cons_append, fcbCells, if_neg h0, if_neg hd, ih', List.length_cons,
        Nat.add_assoc, Nat.add_comm 1, List.cons_append]

@[simp] theorem fcbCells_nul (i : ℕ) (rest : List (BitVec 8)) : fcbCells i (chNul :: rest) = [] := by
  simp [fcbCells]

theorem fcbCells_dot (i : ℕ) (q : List (BitVec 8)) :
    fcbCells i (chDot :: q) = List.replicate (8 - i) chBlank ++ fcbCells (i + (8 - i)) q := by
  rw [fcbCells, if_neg chDot_ne_chNul, if_pos rfl]

/-! ### The round trip -/

/-- The path that `MakeFullPath` makes, with whatever memory holds behind it. -/
theorem makeFullPath_append (dir : Str chNul) (tail rest : List (BitVec 8)) (f : Mem) :
    makeFullPath (dir.mem tail) f ++ rest =
      dir.chars ++ chBackslash :: (emitLoop f 0 11 ++ chNul :: rest) := by
  simp [makeFullPath, copyString_eq_text]

/-- What stands behind the last separator of a path. -/
theorem drop_fstrrchrLocal (dir : Str chNul) {name : List (BitVec 8)} (hnul : chNul ∉ name)
    (hsep : chBackslash ∉ name) (rest : List (BitVec 8)) :
    (dir.chars ++ chBackslash :: (name ++ chNul :: rest)).drop
        (fstrrchrLocal (dir.chars ++ chBackslash :: (name ++ chNul :: rest)) chBackslash + 1) =
      name ++ chNul :: rest := by
  rw [fstrrchrLocal, rindex_of_last dir.nul_notMem hnul chBackslash_ne_chNul hsep rest]
  simp

/-- The bytes of the last component of such a path, when the name has no special characters. -/
theorem drop_makeFullPath (dir : Str chNul) (tail rest : List (BitVec 8)) {f : Mem}
    (hf : ∀ i < 11, f i ≠ chBackslash ∧ f i ≠ chNul) :
    (makeFullPath (dir.mem tail) f ++ rest).drop
        (fstrrchrLocal (makeFullPath (dir.mem tail) f ++ rest) chBackslash + 1) =
      emitLoop f 0 11 ++ chNul :: rest := by
  have hnul : chNul ∉ emitLoop f 0 11 := by
    intro h
    rcases mem_emitLoop h with h | ⟨i, hi, h⟩
    · exact chDot_ne_chNul h.symm
    · exact (hf i hi).2 h
  have hsep : chBackslash ∉ emitLoop f 0 11 := by
    intro h
    rcases mem_emitLoop h with h | ⟨i, hi, h⟩
    · exact chDot_ne_chBackslash h.symm
    · exact (hf i hi).1 h
  rw [makeFullPath_append]
  exact drop_fstrrchrLocal dir hnul hsep rest

/-- Whatever the path, what `FillFcbName` stores from it has no separator, no dot and no
terminator in it. -/
theorem ordinary_of_mem_fcbCells {path : List (BitVec 8)} (h : 0 < strEnd chNul path)
    {b : BitVec 8} (hb : b ∈ fcbCells 0 (path.drop (fstrrchrLocal path chBackslash + 1))) :
    b ≠ chDot ∧ b ≠ chBackslash ∧ b ≠ chNul := by
  rcases mem_fcbCells hb with rfl | ⟨htext, hdot⟩
  · decide
  · refine ⟨hdot, ?_, ?_⟩
    · rintro rfl
      exact not_mem_text_drop_rindex chBackslash_ne_chNul h htext
    · rintro rfl
      exact nul_notMem_text _ htext

/-- The cells of a name without special characters, padded: each field on its own when the
extension starts with a character, the two run together when it does not. -/
theorem pad_fcbCells_emitLoop {f : Mem} (hf : ∀ i < 11, f i ≠ chDot ∧ f i ≠ chNul)
    (rest : List (BitVec 8)) :
    pad chBlank 11 (fcbCells 0 (emitLoop f 0 11 ++ chNul :: rest)) =
      if f 8 = chBlank then pad chBlank 11 (keep chBlank (field f 0 11))
      else pad chBlank 8 (keep chBlank (field f 0 8)) ++
        pad chBlank 3 (keep chBlank (field f 8 3)) := by
  -- neither field contains a dot or a terminator, so both are copied as they are
  have hkeep {c : BitVec 8} (hc : ∀ i < 11, f i ≠ c) (a n : ℕ) (han : a + n ≤ 11) :
      c ∉ keep chBlank (field f a n) := by
    intro h
    obtain ⟨i, -, hi, hfi⟩ := mem_field.1 (mem_keep.1 h).1
    exact hc i (by omega) hfi
  have hnul := hkeep fun i hi => (hf i hi).2
  have hdot := hkeep fun i hi => (hf i hi).1
  have hbase : (keep chBlank (field f 0 8)).length ≤ 8 := by
    simpa using keep_length_le chBlank (field f 0 8)
  have hext : (keep chBlank (field f 8 3)).length ≤ 3 := by
    simpa using keep_length_le chBlank (field f 8 3)
  rw [emitLoop_eq, List.append_assoc, fcbCells_append (hnul 0 8 (by omega)) (hdot 0 8 (by omega)),
    Nat.zero_add, List.append_assoc]
  by_cases hb : f 8 = chBlank
  · rw [if_pos hb, if_pos hb, List.nil_append,
      fcbCells_append (hnul 8 3 (by omega)) (hdot 8 3 (by omega)), fcbCells_nul, List.append_nil,
      ← keep_append, ← field_add]
  · rw [if_neg hb, if_neg hb, List.singleton_append, fcbCells_dot,
      fcbCells_append (hnul 8 3 (by omega)) (hdot 8 3 (by omega)), fcbCells_nul, List.append_nil]
    have hlen : 11 - ((keep chBlank (field f 0 8)).length +
        (8 - (keep chBlank (field f 0 8)).length + (keep chBlank (field f 8 3)).length)) =
        3 - (keep chBlank (field f 8 3)).length := by omega
    simp only [pad, List.length_append, List.length_replicate, hlen, List.append_assoc]

/-- The padded cells are the name exactly when both fields carry their blanks at the end. -/
theorem pad_fcbCells_eq_iff {f : Mem} (hf : ∀ i < 11, f i ≠ chDot ∧ f i ≠ chNul)
    (rest : List (BitVec 8)) :
    pad chBlank 11 (fcbCells 0 (emitLoop f 0 11 ++ chNul :: rest)) = field f 0 11 ↔
      BlankSuffix chBlank (field f 0 8) ∧ BlankSuffix chBlank (field f 8 3) := by
  have hsplit : field f 0 11 = field f 0 8 ++ field f 8 3 := field_add f 0 8 3
  rw [pad_fcbCells_emitLoop hf]
  by_cases hb : f 8 = chBlank
  · have hpad := pad_keep_iff chBlank (field f 0 11)
    rw [field_length] at hpad
    rw [if_pos hb, hpad, hsplit, BlankSuffix, List.pairwise_append]
    constructor
    · rintro ⟨h₁, h₂, -⟩
      exact ⟨h₁, h₂⟩
    · rintro ⟨h₁, h₂⟩
      -- byte 8 is blank, so the whole extension is
      refine ⟨h₁, h₂, fun _ _ b hmem _ => ?_⟩
      obtain ⟨i, h8, hi, rfl⟩ := mem_field.1 hmem
      exact blankSuffix_field_iff.1 h₂ 8 i le_rfl h8 hi hb
  · have h₁ := pad_keep_iff chBlank (field f 0 8)
    have h₂ := pad_keep_iff chBlank (field f 8 3)
    rw [field_length] at h₁ h₂
    rw [if_neg hb, hsplit, ← h₁, ← h₂]
    constructor
    · intro h
      refine List.append_inj h ?_
      rw [pad_length (by simpa using keep_length_le chBlank (field f 0 8)), field_length]
    · rintro ⟨h₁, h₂⟩
      rw [h₁, h₂]

/-- The bytes that `FillFcbName` leaves in the FCB name are the padded cells. -/
theorem fillFcbName_apply (fcb : Mem) (path : List (BitVec 8)) {i : ℕ} (hi : i < 11) :
    ∃ _ : i < (pad chBlank 11
        (fcbCells 0 (path.drop (fstrrchrLocal path chBackslash + 1)))).length,
      fillFcbName fcb path i = (pad chBlank 11
        (fcbCells 0 (path.drop (fstrrchrLocal path chBackslash + 1))))[i] := by
  have hlen : i < (pad chBlank 11
      (fcbCells 0 (path.drop (fstrrchrLocal path chBackslash + 1)))).length := by
    simp only [pad, List.length_append, List.length_replicate]
    omega
  refine ⟨hlen, ?_⟩
  rw [fillFcbName_eq]
  simpa using Mem.write_get (m := fcb) (o := 0) hlen

/-- **FCB names and paths round-trip exactly when the name has none of the characters `.`, `\\` and
NUL and each of its two fields carries its blanks at the end**, whatever the directory, the memory
behind the strings and the old contents of the FCB name. -/
theorem fillFcbName_makeFullPath_iff (dir : Str chNul) (tail rest : List (BitVec 8))
    (f fcb : Mem) :
    (∀ i < 11, fillFcbName fcb (makeFullPath (dir.mem tail) f ++ rest) i = f i) ↔
      (∀ i < 11, f i ≠ chDot ∧ f i ≠ chBackslash ∧ f i ≠ chNul) ∧
        (∀ i j, i ≤ j → j < 8 → f i = chBlank → f j = chBlank) ∧
        (∀ i j, 8 ≤ i → i ≤ j → j < 11 → f i = chBlank → f j = chBlank) := by
  have hbase : BlankSuffix chBlank (field f 0 8) ↔
      ∀ i j, i ≤ j → j < 8 → f i = chBlank → f j = chBlank := by
    rw [blankSuffix_field_iff]
    exact ⟨fun h i j => h i j (Nat.zero_le _), fun h i j _ => by simpa using h i j⟩
  have hext : BlankSuffix chBlank (field f 8 3) ↔
      ∀ i j, 8 ≤ i → i ≤ j → j < 11 → f i = chBlank → f j = chBlank := blankSuffix_field_iff
  have hpos : 0 < strEnd chNul (makeFullPath (dir.mem tail) f ++ rest) := by
    rw [strEnd_eq_length_text, makeFullPath_append, text_append dir.nul_notMem]
    simp [text]
  rw [← hbase, ← hext]
  constructor
  · intro h
    -- what comes back is what `FillFcbName` stores, and that is never a special character
    have hord : ∀ i < 11, f i ≠ chDot ∧ f i ≠ chBackslash ∧ f i ≠ chNul := by
      intro i hi
      obtain ⟨hlen, hval⟩ := fillFcbName_apply fcb (makeFullPath (dir.mem tail) f ++ rest) hi
      rw [← h i hi, hval]
      have hmem := List.getElem_mem hlen
      rcases List.mem_append.1 hmem with hmem | hmem
      · exact ordinary_of_mem_fcbCells hpos hmem
      · rw [List.eq_of_mem_replicate hmem]
        decide
    refine ⟨hord, ?_⟩
    have hdrop := drop_makeFullPath dir tail rest fun i hi => (hord i hi).2
    have hf : ∀ i < 11, f i ≠ chDot ∧ f i ≠ chNul := fun i hi => ⟨(hord i hi).1, (hord i hi).2.2⟩
    rw [← pad_fcbCells_eq_iff hf rest]
    refine (eq_field_iff ?_).2 fun i hi => ?_
    · rw [pad_fcbCells_emitLoop hf]
      split_ifs
      · exact pad_length (by simpa using keep_length_le chBlank (field f 0 11))
      · rw [List.length_append,
          pad_length (by simpa using keep_length_le chBlank (field f 0 8)),
          pad_length (by simpa using keep_length_le chBlank (field f 8 3))]
    · obtain ⟨hlen, hval⟩ := fillFcbName_apply fcb (makeFullPath (dir.mem tail) f ++ rest) hi
      rw [h i hi] at hval
      simp only [hdrop] at hval
      exact hval.symm
  · rintro ⟨hord, hsuffix⟩ i hi
    have hdrop := drop_makeFullPath dir tail rest fun i hi => (hord i hi).2
    have heq := (pad_fcbCells_eq_iff
      (fun i hi => ⟨(hord i hi).1, (hord i hi).2.2⟩) rest).2 hsuffix
    obtain ⟨hlen, hval⟩ := fillFcbName_apply fcb (makeFullPath (dir.mem tail) f ++ rest) hi
    rw [hval]
    simp only [hdrop, heq]
    simp [field]

end Vbsmount

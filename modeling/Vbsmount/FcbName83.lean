/-
**Names of the 8.3 form, on the way to an FCB name and back.**

A name of the 8.3 form has a base of at most eight characters and, behind a dot, an extension of at
most three.  `FillFcbName` pads both to the fields of an FCB name, and `MakeFullPath` takes the
padding off again, so the path comes back as it was.

Main definitions:

* `Name83` — a name of the 8.3 form; an empty extension is a name without a dot;
* `Name83.text`, `Name83.path`, `Name83.fcb` — the name as it stands in a path, the memory that
  holds the path to it, and its eleven bytes in an FCB name.

Main results:

* `fillFcbName_path` — `FillFcbName` writes the eleven bytes and nothing else;
* `emitLoop_fcb` — `MakeFullPath` writes the name;
* `path_fillFcbName_makeFullPath` — **the round trip of paths**, for every directory and name.
-/

import Vbsmount.FcbRoundTrip

set_option relaxedAutoImplicit false
set_option autoImplicit false

namespace Vbsmount

open Bytes CString

/-! ### Names of the 8.3 form -/

/-- A character that may stand in a name of the 8.3 form. -/
def OrdinaryChar (c : BitVec 8) : Prop :=
  c ≠ chBlank ∧ c ≠ chDot ∧ c ≠ chBackslash ∧ c ≠ chNul

/-- A name of the 8.3 form. -/
structure Name83 where
  base : List (BitVec 8)
  /-- The extension, which is empty when there is no dot. -/
  ext : List (BitVec 8)
  base_le : base.length ≤ 8
  ext_le : ext.length ≤ 3
  base_ordinary : ∀ c ∈ base, OrdinaryChar c
  ext_ordinary : ∀ c ∈ ext, OrdinaryChar c

namespace Name83

/-- The name as it stands in a path. -/
def text (n : Name83) : List (BitVec 8) :=
  n.base ++ if n.ext = [] then [] else chDot :: n.ext

/-- Memory that holds the path to the name in a directory, its terminator, and `rest` behind it. -/
def path (n : Name83) (dir : Str chNul) (rest : List (BitVec 8)) : List (BitVec 8) :=
  dir.chars ++ chBackslash :: (n.text ++ chNul :: rest)

/-- The eleven bytes of the name in an FCB. -/
def fcb (n : Name83) : List (BitVec 8) := pad chBlank 8 n.base ++ pad chBlank 3 n.ext

variable (n : Name83)

@[simp] theorem fcb_length : n.fcb.length = 11 := by
  rw [fcb, List.length_append, pad_length n.base_le, pad_length n.ext_le]

theorem blank_notMem_base : chBlank ∉ n.base := fun h => (n.base_ordinary _ h).1 rfl

theorem blank_notMem_ext : chBlank ∉ n.ext := fun h => (n.ext_ordinary _ h).1 rfl

/-- The characters of the text are ordinary ones and the dot. -/
theorem mem_text {c : BitVec 8} (h : c ∈ n.text) : OrdinaryChar c ∨ c = chDot := by
  rw [text] at h
  rcases List.mem_append.1 h with h | h
  · exact Or.inl (n.base_ordinary c h)
  · split_ifs at h
    · cases h
    · rcases List.mem_cons.1 h with h | h
      · exact Or.inr h
      · exact Or.inl (n.ext_ordinary c h)

theorem nul_notMem_text : chNul ∉ n.text := by
  intro h
  rcases n.mem_text h with h | h
  · exact h.2.2.2 rfl
  · exact chDot_ne_chNul h.symm

theorem backslash_notMem_text : chBackslash ∉ n.text := by
  intro h
  rcases n.mem_text h with h | h
  · exact h.2.2.1 rfl
  · exact chDot_ne_chBackslash h.symm

end Name83

/-! ### Into the FCB name -/

section

variable (n : Name83) (dir : Str chNul) (tail rest : List (BitVec 8))

/-- The last component of the path is the name. -/
theorem drop_path : (n.path dir rest).drop (fstrrchrLocal (n.path dir rest) chBackslash + 1) =
    n.text ++ chNul :: rest :=
  drop_fstrrchrLocal dir n.nul_notMem_text n.backslash_notMem_text rest

/-- The copy loop pads the base at the dot. -/
theorem pad_fcbCells_text : pad chBlank 11 (fcbCells 0 (n.text ++ chNul :: rest)) = n.fcb := by
  have hbase (q : List (BitVec 8)) :
      fcbCells 0 (n.base ++ q) = n.base ++ fcbCells n.base.length q := by
    have happend := fcbCells_append (fun h => (n.base_ordinary _ h).2.2.2 rfl)
      (fun h => (n.base_ordinary _ h).2.1 rfl) 0 q
    rwa [Nat.zero_add] at happend
  have hle := n.base_le
  have hle' := n.ext_le
  rw [Name83.text, Name83.fcb, List.append_assoc, hbase]
  by_cases hext : n.ext = []
  · -- without a dot the padding at the end fills both fields
    have hlen : 11 - n.base.length = (8 - n.base.length) + 3 := by omega
    rw [if_pos hext, List.nil_append, fcbCells_nul, hext, List.append_nil, pad, hlen,
      List.replicate_add, ← List.append_assoc]
    rfl
  · have hdot := fcbCells_append (fun h => (n.ext_ordinary _ h).2.2.2 rfl)
      (fun h => (n.ext_ordinary _ h).2.1 rfl) (n.base.length + (8 - n.base.length)) (chNul :: rest)
    have hlen : 11 - (n.base.length + (8 - n.base.length + n.ext.length)) = 3 - n.ext.length := by
      omega
    rw [if_neg hext, List.cons_append, fcbCells_dot, hdot, fcbCells_nul, List.append_nil]
    simp [pad, hlen]

/-- **`FillFcbName` writes the eleven bytes of the name and nothing else.** -/
theorem fillFcbName_path (fcb : Mem) :
    fillFcbName fcb (n.path dir rest) = fcb.write 0 n.fcb := by
  rw [fillFcbName_eq, drop_path, pad_fcbCells_text]

/-! ### And back -/

/-- Reading back a stored string as a field. -/
theorem field_write (m : Mem) (o : ℕ) (bs : List (BitVec 8)) :
    field (m.write o bs) o bs.length = bs := by
  refine List.ext_getElem (field_length ..) ?_
  intro i h₁ h₂
  have hget : m.write o bs (o + i) = bs[i] := Mem.write_get h₂
  simpa [field] using hget

/-- The eleven bytes of the FCB name. -/
theorem field_write_fcb (fcb : Mem) : field (fcb.write 0 n.fcb) 0 11 = n.fcb := by
  have h := field_write fcb 0 n.fcb
  rwa [n.fcb_length] at h

/-- The two fields of the FCB name. -/
theorem field_fcb (fcb : Mem) : field (fcb.write 0 n.fcb) 0 8 = pad chBlank 8 n.base ∧
    field (fcb.write 0 n.fcb) 8 3 = pad chBlank 3 n.ext := by
  have hsplit := field_add (fcb.write 0 n.fcb) 0 8 3
  rw [field_write_fcb, Name83.fcb, Nat.zero_add] at hsplit
  have hlen : (pad chBlank 8 n.base).length = (field (fcb.write 0 n.fcb) 0 8).length := by
    rw [pad_length n.base_le, field_length]
  obtain ⟨hbase, hext⟩ := List.append_inj hsplit hlen
  exact ⟨hbase.symm, hext.symm⟩

/-- **`MakeFullPath` writes the name.** -/
theorem emitLoop_fcb (fcb : Mem) : emitLoop (fcb.write 0 n.fcb) 0 11 = n.text := by
  obtain ⟨hbase, hext⟩ := field_fcb n fcb
  have hfirst := field_succ (fcb.write 0 n.fcb) 8 2
  rw [emitLoop_eq, hbase, hext, keep_pad n.blank_notMem_base, keep_pad n.blank_notMem_ext,
    Name83.text]
  rw [hext] at hfirst
  cases hcases : n.ext with
  | nil =>
      rw [hcases] at hfirst
      obtain ⟨hblank, -⟩ := List.cons.inj hfirst
      rw [← hblank]
      simp
  | cons c cs =>
      have hord : OrdinaryChar c := n.ext_ordinary c (hcases ▸ List.mem_cons_self ..)
      rw [hcases, pad_cons] at hfirst
      obtain ⟨hc, -⟩ := List.cons.inj hfirst
      rw [← hc, if_neg hord.1, if_neg (List.cons_ne_nil c cs)]
      rfl

/-- **Paths round-trip through the FCB name**: for every directory and every name of the 8.3 form,
`FillFcbName` writes the padded base and the padded extension, and `MakeFullPath` rebuilds the path
with its terminator. -/
theorem path_fillFcbName_makeFullPath (fcb : Mem) :
    fillFcbName fcb (n.path dir rest) =
        fcb.write 0 (pad chBlank 8 n.base ++ pad chBlank 3 n.ext) ∧
      makeFullPath (dir.mem tail) (fillFcbName fcb (n.path dir rest)) = n.path dir [] := by
  refine ⟨fillFcbName_path n dir rest fcb, ?_⟩
  have hpath := makeFullPath_append dir tail [] (fcb.write 0 n.fcb)
  rw [List.append_nil, emitLoop_fcb] at hpath
  rw [fillFcbName_path, hpath, Name83.path]

end

end Vbsmount

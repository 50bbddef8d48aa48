/-
**Lines and fields of a text.**

A text is a sequence of lines, each ended by a line end, and perhaps a piece behind the last line
end that is not a line.  A field of a line ends at the first occurrence of a separator.

Main definitions:

* `Lines.cut` — what is in front of the first separator, and what is behind it;
* `Lines.linesOf`, `Lines.join` — the lines of a text, and a text made of lines;
* `Lines.piecesOf` — the pieces of a text between separators, where nothing need follow the last
  one.

Main results:

* `Lines.cut_eq_some_iff` — where a text is cut;
* `Lines.exists_tail` — a text is its lines, and a piece without a line end;
* `Lines.linesOf_join` — **the lines of a text made of lines are these lines**.
-/

import Mathlib.Tactic

set_option relaxedAutoImplicit false
set_option autoImplicit false

namespace Lines

variable {α : Type} [DecidableEq α]

/-- What is in front of the first separator, and what is behind it. -/
def cut (sep : α) : List α → Option (List α × List α)
  | [] => none
  | b :: l => if b = sep then some ([], l) else (cut sep l).map fun (a, t) => (b :: a, t)

/-- The lines of a text. -/
def linesOf (lf : α) : List α → List (List α)
  | [] => []
  | b :: l =>
      if b = lf then [] :: linesOf lf l
      else
        match linesOf lf l with
        | [] => []
        | line :: lines => (b :: line) :: lines

/-- The pieces of a text between separators. -/
def piecesOf (sep : α) : List α → List (List α)
  | [] => []
  | b :: l =>
      if b = sep then [] :: piecesOf sep l
      else
        match piecesOf sep l with
        | [] => [[b]]
        | p :: ps => (b :: p) :: ps

/-- The text made of lines. -/
def join (lf : α) (lines : List (List α)) : List α := lines.flatMap fun line => line ++ [lf]

section

variable {sep lf : α}

omit [DecidableEq α] in
@[simp] theorem join_nil : join lf [] = [] := rfl

omit [DecidableEq α] in
@[simp] theorem join_cons (line : List α) (lines : List (List α)) :
    join lf (line :: lines) = line ++ lf :: join lf lines := by
  simp [join]

/-- **Where a text is cut.** -/
theorem cut_eq_some_iff {l a t : List α} :
    cut sep l = some (a, t) ↔ l = a ++ sep :: t ∧ sep ∉ a := by
  induction l generalizing a with
  | nil => simp [cut]
  | cons b l ih =>
      by_cases hb : b = sep
      · subst hb
        rw [cut, if_pos rfl]
        constructor
        · intro h
          obtain ⟨rfl, rfl⟩ := Prod.mk.inj (Option.some.inj h)
          exact ⟨rfl, List.not_mem_nil⟩
        · rintro ⟨h, hmem⟩
          cases a with
          | nil => rw [(List.cons.inj h).2]
          | cons c a => exact absurd ((List.cons.inj h).1 ▸ List.mem_cons_self ..) hmem
      · rw [cut, if_neg hb, Option.map_eq_some_iff]
        constructor
        · rintro ⟨⟨a', t'⟩, h, heq⟩
          obtain ⟨rfl, rfl⟩ := Prod.mk.inj heq
          obtain ⟨rfl, hmem⟩ := ih.1 h
          exact ⟨rfl, by simp [hmem, Ne.symm hb]⟩
        · rintro ⟨h, hmem⟩
          cases a with
          | nil => exact absurd (List.cons.inj h).1 hb
          | cons c a =>
              obtain ⟨rfl, rfl⟩ := List.cons.inj h
              exact ⟨(a, t), ih.2 ⟨rfl, fun h => hmem (List.mem_cons_of_mem _ h)⟩, rfl⟩

theorem cut_eq_none_iff {l : List α} : cut sep l = none ↔ sep ∉ l := by
  induction l with
  | nil => simp [cut]
  | cons b l ih =>
      by_cases hb : b = sep
      · simp [cut, hb]
      · simp [cut, hb, ih, Ne.symm hb]

/-- A line in front of others. -/
theorem linesOf_cons {a : List α} (ha : lf ∉ a) (l : List α) :
    linesOf lf (a ++ lf :: l) = a :: linesOf lf l := by
  induction a with
  | nil => simp [linesOf]
  | cons b a ih =>
      have hb : b ≠ lf := fun h => ha (h ▸ List.mem_cons_self ..)
      have htail : lf ∉ a := fun h => ha (List.mem_cons_of_mem _ h)
      simp [linesOf, hb, ih htail]

/-- A piece without a line end is not a line. -/
theorem linesOf_of_notMem {l : List α} (h : lf ∉ l) : linesOf lf l = [] := by
  induction l with
  | nil => rfl
  | cons b l ih =>
      have hb : b ≠ lf := fun hb => h (hb ▸ List.mem_cons_self ..)
      have htail : lf ∉ l := fun hl => h (List.mem_cons_of_mem _ hl)
      simp [linesOf, hb, ih htail]

/-- A piece in front of a separator. -/
theorem piecesOf_cons {a : List α} (ha : sep ∉ a) (l : List α) :
    piecesOf sep (a ++ sep :: l) = a :: piecesOf sep l := by
  induction a with
  | nil => simp [piecesOf]
  | cons b a ih =>
      have hb : b ≠ sep := fun h => ha (h ▸ List.mem_cons_self ..)
      have htail : sep ∉ a := fun h => ha (List.mem_cons_of_mem _ h)
      simp [piecesOf, hb, ih htail]

/-- The last piece. -/
theorem piecesOf_of_notMem {l : List α} (hl : l ≠ []) (h : sep ∉ l) : piecesOf sep l = [l] := by
  induction l with
  | nil => exact absurd rfl hl
  | cons b l ih =>
      have hb : b ≠ sep := fun hb => h (hb ▸ List.mem_cons_self ..)
      have htail : sep ∉ l := fun hl => h (List.mem_cons_of_mem _ hl)
      cases l with
      | nil => simp [piecesOf, hb]
      | cons c l => rw [piecesOf, if_neg hb, ih (List.cons_ne_nil c l) htail]

/-- **The lines of a text made of lines are these lines.** -/
theorem linesOf_join {lines : List (List α)} (h : ∀ line ∈ lines, lf ∉ line) {tail : List α}
    (htail : lf ∉ tail) : linesOf lf (join lf lines ++ tail) = lines := by
  induction lines with
  | nil => exact linesOf_of_notMem htail
  | cons line lines ih =>
      have hline : lf ∉ line := h line (List.mem_cons_self ..)
      have hlines := ih fun l hl => h l (List.mem_cons_of_mem _ hl)
      rw [join_cons, List.append_assoc, List.cons_append, linesOf_cons hline, hlines]

/-- A text is its lines, and a piece without a line end. -/
theorem exists_tail (lf : α) (l : List α) : ∃ tail, l = join lf (linesOf lf l) ++ tail ∧ lf ∉ tail ∧
    ∀ line ∈ linesOf lf l, lf ∉ line := by
  induction l with
  | nil => exact ⟨[], rfl, List.not_mem_nil, fun _ h => absurd h List.not_mem_nil⟩
  | cons b l ih =>
      obtain ⟨tail, heq, htail, hlines⟩ := ih
      by_cases hb : b = lf
      · subst hb
        refine ⟨tail, ?_, htail, ?_⟩
        · rw [linesOf, if_pos rfl, join_cons, List.nil_append, List.cons_append, ← heq]
        · intro line hline
          rw [linesOf, if_pos rfl] at hline
          rcases List.mem_cons.1 hline with rfl | hline
          · exact List.not_mem_nil
          · exact hlines line hline
      · cases hl : linesOf lf l with
        | nil =>
            -- nothing behind `b` is a line
            rw [hl] at heq
            refine ⟨b :: tail, ?_, by simp [htail, Ne.symm hb], ?_⟩
            · simp only [linesOf, if_neg hb, hl]
              exact congrArg (List.cons b) heq
            · simp [linesOf, hb, hl]
        | cons line lines =>
            rw [hl] at heq hlines
            have hline : lf ∉ line := hlines line (List.mem_cons_self ..)
            refine ⟨tail, ?_, htail, ?_⟩
            · simp only [linesOf, if_neg hb, hl, join_cons, List.cons_append] at heq ⊢
              exact congrArg (List.cons b) heq
            · intro line' hline'
              simp only [linesOf, if_neg hb, hl] at hline'
              rcases List.mem_cons.1 hline' with rfl | hline'
              · simp [hline, Ne.symm hb]
              · exact hlines line' (List.mem_cons_of_mem _ hline')

omit [DecidableEq α] in
theorem length_join_ge (lf : α) (lines : List (List α)) :
    lines.length ≤ (join lf lines).length := by
  induction lines with
  | nil => simp
  | cons line lines ih =>
      simp only [join_cons, List.length_append, List.length_cons]
      omega

end

end Lines

/-
**Patterns with a wildcard for one position, and how padding turns them into a comparison.**

A pattern is matched against a name position by position.  The wildcard is good for any character,
and for a position behind the end of the name as well; behind its own end a pattern admits nothing.
Where name and pattern are both padded to one width, the match is a comparison of characters.

Main definitions:

* `Wildcard.Admits` — what a position of a pattern admits in the name, `none` being behind the end;
* `Wildcard.Matches` — the match of a pattern with a name.

Main results:

* `Wildcard.matches_nil_iff`, `Wildcard.matches_cons_nil_iff`, `Wildcard.matches_cons_cons_iff` — the
  match by recursion, which makes it decidable;
* `Wildcard.matches_iff_eq` — a pattern without wildcards matches itself only;
* `Wildcard.matches_iff_pad` — **the match of padded fields is a comparison of their characters**.
-/

import Vbsmount.Lib.CString

set_option relaxedAutoImplicit false
set_option autoImplicit false

namespace Wildcard

open CString

variable {α : Type} {any : α}

/-- What a position of a pattern admits at the same position of a name. -/
def Admits (any : α) : Option α → Option α → Prop
  | some p, c => p = any ∨ c = some p
  | none, c => c = none

/-- The pattern matches the name. -/
def Matches (any : α) (pattern name : List α) : Prop :=
  ∀ i : ℕ, Admits any pattern[i]? name[i]?

@[simp] theorem admits_none (c : Option α) : Admits any none c ↔ c = none := Iff.rfl

@[simp] theorem admits_some (p : α) (c : Option α) :
    Admits any (some p) c ↔ p = any ∨ c = some p := Iff.rfl

/-! ### By recursion -/

section Recursion

variable {p c : α} {pattern name : List α}

theorem matches_nil_iff : Matches any [] name ↔ name = [] := by
  constructor
  · intro h
    have hfirst : name[0]? = none := h 0
    cases name with
    | nil => rfl
    | cons c name => cases hfirst
  · intro h i
    simp [h]

/-- The match of the first position and of the rest. -/
theorem matches_iff_head_tail {q q' : List α} :
    Matches any q q' ↔ Admits any q[0]? q'[0]? ∧ Matches any q.tail q'.tail := by
  constructor
  · intro h
    refine ⟨h 0, fun i => ?_⟩
    rw [List.getElem?_tail, List.getElem?_tail]
    exact h (i + 1)
  · intro h i
    cases i with
    | zero => exact h.1
    | succ i =>
        have hrest := h.2 i
        rwa [List.getElem?_tail, List.getElem?_tail] at hrest

theorem matches_cons_nil_iff : Matches any (p :: pattern) [] ↔ p = any ∧ Matches any pattern [] := by
  rw [matches_iff_head_tail]
  simp

theorem matches_cons_cons_iff :
    Matches any (p :: pattern) (c :: name) ↔ (p = any ∨ c = p) ∧ Matches any pattern name := by
  rw [matches_iff_head_tail]
  simp

instance decMatches [DecidableEq α] : (pattern name : List α) → Decidable (Matches any pattern name)
  | [], _ => decidable_of_iff _ matches_nil_iff.symm
  | _ :: pattern, [] =>
      have := decMatches pattern []
      decidable_of_iff _ matches_cons_nil_iff.symm
  | _ :: pattern, _ :: name =>
      have := decMatches pattern name
      decidable_of_iff _ matches_cons_cons_iff.symm

/-- The wildcard is good for what is behind the end of the name, and nothing else is. -/
example : Matches 0 [1, 0, 0] [1, 2] ∧ ¬ Matches 0 [1, 2, 3] [1, 2] ∧ ¬ Matches 0 [1] [1, 2] := by
  decide

/-- **A pattern without wildcards matches itself only.** -/
theorem matches_iff_eq (h : any ∉ pattern) : Matches any pattern name ↔ name = pattern := by
  constructor
  · intro hmatch
    refine List.ext_getElem? fun i => ?_
    have hpos := hmatch i
    cases hp : pattern[i]? with
    | none =>
        rw [hp] at hpos
        exact hpos
    | some p =>
        have hne : p ≠ any := fun hany => h (hany ▸ List.mem_of_getElem? hp)
        rw [hp] at hpos
        exact hpos.resolve_left hne
  · intro hname i
    rw [hname]
    cases pattern[i]? with
    | none => rfl
    | some p => exact Or.inr rfl

end Recursion

/-! ### Padded fields -/

section Padded

variable {blank : α} {pattern name : List α} {w : ℕ}

/-- A position of a padded field. -/
theorem getElem?_pad (hl : name.length ≤ w) {i : ℕ} (hi : i < w) :
    (pad blank w name)[i]? = some (name[i]?.getD blank) := by
  rcases Nat.lt_or_ge i name.length with hlt | hge
  · rw [pad, List.getElem?_append_left hlt, List.getElem?_eq_getElem hlt, Option.getD_some]
  · rw [pad, List.getElem?_append_right hge, List.getElem?_eq_none hge, Option.getD_none]
    exact List.getElem?_replicate_of_lt (by omega)

/-- Padding brings in nothing but blanks. -/
theorem mem_pad_iff {c : α} (hc : c ≠ blank) (w : ℕ) : c ∈ pad blank w name ↔ c ∈ name := by
  simp [pad, List.mem_replicate, hc]

/-- One position: the padding stands for what is behind the end. -/
theorem admits_iff_getD (hany : any ≠ blank) {p c : Option α} (hp : p ≠ some blank)
    (hc : c ≠ some blank) :
    Admits any p c ↔ p.getD blank = any ∨ c.getD blank = p.getD blank := by
  cases p with
  | none =>
      cases c with
      | none => simp
      | some c =>
          have hne : c ≠ blank := fun h => hc (h ▸ rfl)
          simp [hne, hany.symm]
  | some p =>
      cases c with
      | none =>
          have hne : blank ≠ p := fun h => hp (h ▸ rfl)
          simp [hne]
      | some c => simp

/-- **The match of padded fields is a comparison of their characters.** -/
theorem matches_iff_pad (hany : any ≠ blank) (hp : blank ∉ pattern) (hn : blank ∉ name)
    (hpw : pattern.length ≤ w) (hnw : name.length ≤ w) :
    Matches any pattern name ↔ ∀ i < w, (pad blank w pattern)[i]? = some any ∨
      (pad blank w name)[i]? = (pad blank w pattern)[i]? := by
  have hpos (i : ℕ) : Admits any pattern[i]? name[i]? ↔
      pattern[i]?.getD blank = any ∨ name[i]?.getD blank = pattern[i]?.getD blank :=
    admits_iff_getD hany (fun h => hp (List.mem_of_getElem? h)) fun h => hn (List.mem_of_getElem? h)
  constructor
  · intro h i hi
    rw [getElem?_pad hpw hi, getElem?_pad hnw hi, Option.some_inj, Option.some_inj]
    exact (hpos i).1 (h i)
  · intro h i
    rcases Nat.lt_or_ge i w with hi | hi
    · have hpad := h i hi
      rw [getElem?_pad hpw hi, getElem?_pad hnw hi, Option.some_inj, Option.some_inj] at hpad
      exact (hpos i).2 hpad
    · rw [List.getElem?_eq_none (by omega), List.getElem?_eq_none (by omega)]
      rfl

end Padded

end Wildcard

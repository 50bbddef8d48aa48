/-
**Strings under a character encoding.**

A character encoding gives some of the units of one alphabet a unit of another, no two of them the
same one, so it is a partial equivalence.  A string is encoded unit by unit; a string that contains
a unit without a code has no encoding, and what a converter puts in its place is not part of the
encoding.

Main definitions:

* `Encoding.Encodes` — a string and its encoding;
* `Encoding.IsDecoder` — a function that decodes every unit of the second alphabet.

Main results:

* `Encoding.Encodes.eq_right`, `Encoding.Encodes.eq_left` — a string has one encoding, and an
  encoding one string;
* `Encoding.exists_encodes_iff` — the strings that have an encoding;
* `Encoding.encodes_iff_map` — decoding unit by unit.
-/

import Mathlib.Data.PEquiv
import Mathlib.Data.List.Forall2

set_option relaxedAutoImplicit false
set_option autoImplicit false

namespace Encoding

variable {α β : Type} {e : α ≃. β}

/-- The string `b` is the encoding of the string `s`. -/
def Encodes (e : α ≃. β) (s : List α) (b : List β) : Prop := List.Forall₂ (fun u c => c ∈ e u) s b

/-- A string has at most one encoding. -/
theorem Encodes.eq_right {s : List α} {b b' : List β} (h : Encodes e s b) (h' : Encodes e s b') :
    b = b' := by
  have hunique : Relator.RightUnique fun u c => c ∈ e u := fun _ _ _ hc hc' =>
    Option.mem_unique hc hc'
  exact List.right_unique_forall₂' hunique h h'

/-- An encoding belongs to one string only. -/
theorem Encodes.eq_left {s s' : List α} {b : List β} (h : Encodes e s b) (h' : Encodes e s' b) :
    s = s' := by
  have hunique : Relator.LeftUnique fun u c => c ∈ e u := fun _ _ _ hc hc' => e.inj hc hc'
  exact List.left_unique_forall₂' hunique h h'

/-- **A string has an encoding exactly when all its units have a code.** -/
theorem exists_encodes_iff {s : List α} : (∃ b, Encodes e s b) ↔ ∀ u ∈ s, (e u).isSome := by
  induction s with
  | nil => simp [Encodes]
  | cons u s ih =>
      rw [List.forall_mem_cons, ← ih, Option.isSome_iff_exists]
      constructor
      · rintro ⟨b, h⟩
        cases h with
        | cons hc htail => exact ⟨⟨_, hc⟩, _, htail⟩
      · rintro ⟨⟨c, hc⟩, b, hb⟩
        exact ⟨c :: b, List.Forall₂.cons hc hb⟩

/-- The function decodes every unit of the second alphabet. -/
def IsDecoder (e : α ≃. β) (d : β → α) : Prop := ∀ c, c ∈ e (d c)

/-- **With a decoder, the encoded string is what the decoder gives.** -/
theorem encodes_iff_map {d : β → α} (hd : IsDecoder e d) {s : List α} {b : List β} :
    Encodes e s b ↔ b.map d = s := by
  have hdecoded : Encodes e (b.map d) b := by
    rw [Encodes, List.forall₂_map_left_iff, List.forall₂_same]
    exact fun c _ => hd c
  constructor
  · intro h
    exact hdecoded.eq_left h
  · rintro rfl
    exact hdecoded

end Encoding

/-
**Terminated strings and padded fields.**

A C string is a piece of memory up to its first terminator; what lies behind the terminator is not
part of it, but a program that takes one step too many reads it all the same.  A padded field has a
fixed width and carries its text at the front, followed by blanks.

Main definitions:

* `CString.Str`, `CString.Str.mem` — a string without terminators inside, and memory that holds it;
* `CString.text`, `CString.strEnd`, `CString.rindex` — the string at the front of a piece of memory,
  the position of its terminator, and the backward search from there, which stops at index `0`
  whether or not the character is found;
* `CString.index` — the forward search for a character;
* `CString.component` — what a program works on that goes one place on from there;
* `CString.keep`, `CString.pad` — dropping the blanks of a field, and padding to a width.

Main results:

* `CString.rindex_of_last` — the backward search finds the last separator;
* `CString.not_mem_text_drop_rindex` — behind the place it finds there is no separator any more;
* `CString.drop_rindex` — what stands one place on from there;
* `CString.pad_keep_iff` — **dropping the blanks of a field and padding again gives the field back
  exactly when its blanks form a suffix of it**.
-/

import Mathlib.Tactic

set_option relaxedAutoImplicit false
set_option autoImplicit false

namespace CString

variable {α : Type} [DecidableEq α]

/-! ### Terminated strings -/

/-- A string with no terminator inside. -/
structure Str (nul : α) where
  /-- The characters. -/
  chars : List α
  /-- None of them is the terminator. -/
  nul_notMem : nul ∉ chars

/-- Memory that holds the string, its terminator, and `rest` behind it. -/
def Str.mem {nul : α} (s : Str nul) (rest : List α) : List α := s.chars ++ nul :: rest

/-- The string at the front of a piece of memory. -/
def text (nul : α) : List α → List α
  | [] => []
  | b :: bs => if b = nul then [] else b :: text nul bs

/-- `for ( i = 0 ; str[i] != nul ; ++i );` -/
def strEnd (nul : α) : List α → ℕ
  | [] => 0
  | b :: bs => if b = nul then 0 else strEnd nul bs + 1

/-- `for ( ; i && str[i] != c ; --i );` -/
def scanBack (str : List α) (c : α) : ℕ → ℕ
  | 0 => 0
  | i + 1 => if str[i + 1]? = some c then i + 1 else scanBack str c i

/-- The backward search for `c` from the end of the string. -/
def rindex (nul c : α) (str : List α) : ℕ := scanBack str c (strEnd nul str)

/-- The forward search for `c`: its offset, or `some none` when the string ends before it; there is
no answer when the memory ends first. -/
def index (nul c : α) : List α → Option (Option ℕ)
  | [] => none
  | b :: l =>
      if b = c then some (some 0)
      else if b = nul then some none
      else (index nul c l).map fun n => n.map (· + 1)

section

variable {nul c : α}

theorem strEnd_eq_length_text (l : List α) : strEnd nul l = (text nul l).length := by
  induction l with
  | nil => rfl
  | cons b bs ih =>
      by_cases hb : b = nul
      · simp [strEnd, text, hb]
      · simp [strEnd, text, hb, ih]

/-- The terminator that the forward search finds is inside the memory. -/
theorem strEnd_lt_length {l : List α} (h : nul ∈ l) : strEnd nul l < l.length := by
  induction l with
  | nil => cases h
  | cons b bs ih =>
      by_cases hb : b = nul
      · simp [strEnd, hb]
      · have htail : nul ∈ bs := (List.mem_cons.1 h).resolve_left (Ne.symm hb)
        simpa [strEnd, hb] using ih htail

/-- Memory that starts with characters other than the terminator. -/
theorem text_append {s : List α} (hs : nul ∉ s) (l : List α) :
    text nul (s ++ l) = s ++ text nul l := by
  induction s with
  | nil => rfl
  | cons b s ih =>
      have hb : b ≠ nul := fun h => hs (h ▸ List.mem_cons_self ..)
      have hs' : nul ∉ s := fun h => hs (List.mem_cons_of_mem _ h)
      simp [text, hb, ih hs']

@[simp] theorem text_nul (l : List α) : text nul (nul :: l) = [] := by
  simp [text]

/-- The string that memory was made to hold. -/
@[simp] theorem text_mem (s : Str nul) (rest : List α) : text nul (s.mem rest) = s.chars := by
  rw [Str.mem, text_append s.nul_notMem, text_nul, List.append_nil]

theorem nul_notMem_text (l : List α) : nul ∉ text nul l := by
  induction l with
  | nil => simp [text]
  | cons b bs ih =>
      by_cases hb : b = nul
      · simp [text, hb]
      · simp [text, hb, ih, Ne.symm hb]

/-- The characters of the string are the first ones of the memory. -/
theorem getElem?_text {l : List α} {i : ℕ} (h : i < (text nul l).length) :
    l[i]? = (text nul l)[i]? := by
  induction l generalizing i with
  | nil => rfl
  | cons b bs ih =>
      by_cases hb : b = nul
      · simp [text, hb] at h
      · cases i with
        | zero => simp [text, hb]
        | succ i =>
            simp only [text, hb, if_false, List.length_cons, Nat.add_lt_add_iff_right] at h
            simp [text, hb, ih h]

/-- What the backward search passes over. -/
theorem ne_of_scanBack_lt {str : List α} : ∀ {i j : ℕ}, scanBack str c i < j → j ≤ i →
    str[j]? ≠ some c := by
  intro i
  induction i with
  | zero => intro j h₁ h₂; omega
  | succ i ih =>
      intro j h₁ h₂
      by_cases hi : str[i + 1]? = some c
      · rw [scanBack, if_pos hi] at h₁
        omega
      · rw [scanBack, if_neg hi] at h₁
        rcases Nat.eq_or_lt_of_le h₂ with rfl | h₂
        · exact hi
        · exact ih h₁ (by omega)

/-- The backward search does not pass a place where the character is. -/
theorem le_scanBack {str : List α} {i j : ℕ} (hj : j ≤ i) (h : str[j]? = some c) :
    j ≤ scanBack str c i := by
  by_contra hlt
  exact ne_of_scanBack_lt (Nat.lt_of_not_le hlt) hj h

theorem scanBack_le (str : List α) (i : ℕ) : scanBack str c i ≤ i := by
  induction i with
  | zero => exact le_rfl
  | succ i ih =>
      by_cases hi : str[i + 1]? = some c
      · rw [scanBack, if_pos hi]
      · rw [scanBack, if_neg hi]
        omega

/-- Away from index `0` the backward search stops at a hit. -/
theorem getElem?_scanBack {str : List α} {i : ℕ} (h : 0 < scanBack str c i) :
    str[scanBack str c i]? = some c := by
  induction i with
  | zero => simp [scanBack] at h
  | succ i ih =>
      by_cases hi : str[i + 1]? = some c
      · rwa [scanBack, if_pos hi]
      · rw [scanBack, if_neg hi] at h ⊢
        exact ih h

/-- **The backward search finds the last separator**: `a ++ c :: b`, with no separator in `b`. -/
theorem rindex_of_last {a b : List α} (ha : nul ∉ a) (hb : nul ∉ b) (hc : c ≠ nul) (hcb : c ∉ b)
    (rest : List α) : rindex nul c (a ++ c :: (b ++ nul :: rest)) = a.length := by
  have htext : text nul (a ++ c :: (b ++ nul :: rest)) = a ++ c :: b := by
    rw [text_append ha]
    simp [text, hc, text_append hb]
  have hend : strEnd nul (a ++ c :: (b ++ nul :: rest)) = a.length + (b.length + 1) := by
    rw [strEnd_eq_length_text, htext]
    simp
  rw [rindex, hend]
  refine le_antisymm (Nat.not_lt.1 fun hlt => ?_) (le_scanBack (by omega) (by simp))
  -- a hit behind `a` would be a separator in `b`, or the terminator itself
  have hle := scanBack_le (c := c) (a ++ c :: (b ++ nul :: rest)) (a.length + (b.length + 1))
  have hit := getElem?_scanBack (lt_of_le_of_lt (Nat.zero_le _) hlt)
  generalize scanBack (a ++ c :: (b ++ nul :: rest)) c (a.length + (b.length + 1)) = i at *
  obtain ⟨j, rfl⟩ : ∃ j, i = a.length + (j + 1) := ⟨i - a.length - 1, by omega⟩
  rw [List.getElem?_append_right (by omega), Nat.add_sub_cancel_left,
    List.getElem?_cons_succ] at hit
  rcases Nat.lt_or_ge j b.length with hj | hj
  · rw [List.getElem?_append_left hj] at hit
    exact hcb (List.mem_of_getElem? hit)
  · have hjb : j = b.length := by omega
    rw [hjb, List.getElem?_append_right le_rfl, Nat.sub_self, List.getElem?_cons_zero] at hit
    exact hc (Option.some_inj.1 hit).symm

/-- The forward search passes over what is neither the character nor the terminator. -/
theorem index_append {s : List α} (hs : nul ∉ s) (hc : c ∉ s) (l : List α) :
    index nul c (s ++ l) = (index nul c l).map fun n => n.map (· + s.length) := by
  induction s with
  | nil => simp
  | cons b s ih =>
      have hnul : b ≠ nul := fun h => hs (h ▸ List.mem_cons_self ..)
      have hbc : b ≠ c := fun h => hc (h ▸ List.mem_cons_self ..)
      have hs' : nul ∉ s := fun h => hs (List.mem_cons_of_mem _ h)
      have hc' : c ∉ s := fun h => hc (List.mem_cons_of_mem _ h)
      simp only [List.cons_append, index, if_neg hbc, if_neg hnul, ih hs' hc', Option.map_map]
      congr 1
      funext n
      simp [Option.map_map, Function.comp_def, Nat.add_assoc]

/-- **The forward search finds the first occurrence.** -/
theorem index_of_first {a : List α} (ha : nul ∉ a) (hca : c ∉ a) (l : List α) :
    index nul c (a ++ c :: l) = some (some a.length) := by
  simp [index_append ha hca, index]

/-- A string without the character. -/
theorem index_of_notMem {s : List α} (hs : nul ∉ s) (hcs : c ∉ s) (hc : c ≠ nul) (rest : List α) :
    index nul c (s ++ nul :: rest) = some none := by
  simp [index_append hs hcs, index, Ne.symm hc]

/-- Where there is a terminator, the forward search has an answer. -/
theorem index_isSome {l : List α} (h : nul ∈ l) : (index nul c l).isSome := by
  induction l with
  | nil => cases h
  | cons b l ih =>
      by_cases hbc : b = c
      · simp [index, hbc]
      · by_cases hb : b = nul
        · rw [index, if_neg hbc, if_pos hb]
          rfl
        · have htail : nul ∈ l := (List.mem_cons.1 h).resolve_left (Ne.symm hb)
          simpa [index, hbc, hb] using ih htail

/-- What the forward search finds is the character, and no terminator stands in front of it. -/
theorem index_eq_some {l : List α} {n : ℕ} (h : index nul c l = some (some n)) :
    ∃ a t, l = a ++ c :: t ∧ a.length = n ∧ c ∉ a ∧ nul ∉ a := by
  induction l generalizing n with
  | nil => cases h
  | cons b l ih =>
      by_cases hbc : b = c
      · simp only [index, if_pos hbc, Option.some.injEq] at h
        exact ⟨[], l, by rw [hbc]; rfl, h, List.not_mem_nil, List.not_mem_nil⟩
      · by_cases hb : b = nul
        · simp only [index, if_neg hbc, if_pos hb, Option.some.injEq, reduceCtorEq] at h
        · simp only [index, if_neg hbc, if_neg hb, Option.map_eq_some_iff] at h
          obtain ⟨o, ho, n', rfl, rfl⟩ := h
          obtain ⟨a, t, rfl, rfl, hca, hnul⟩ := ih ho
          exact ⟨b :: a, t, rfl, rfl, by simp [hca, Ne.symm hbc], by simp [hnul, Ne.symm hb]⟩

/-- Dropping characters of the string drops them from the memory's text. -/
theorem text_drop {l : List α} {k : ℕ} (h : k ≤ strEnd nul l) :
    text nul (l.drop k) = (text nul l).drop k := by
  induction l generalizing k with
  | nil => simp [text]
  | cons b bs ih =>
      cases k with
      | zero => rfl
      | succ k =>
          by_cases hb : b = nul
          · simp [strEnd, hb] at h
          · simp only [strEnd, hb, if_false, Nat.add_le_add_iff_right] at h
            simp [text, hb, ih h]

/-- What stands at the end of the string is not a character of it. -/
theorem getElem?_strEnd_ne (hc : c ≠ nul) (l : List α) : l[strEnd nul l]? ≠ some c := by
  induction l with
  | nil => simp
  | cons b bs ih =>
      by_cases hb : b = nul
      · simp [strEnd, hb, Ne.symm hc]
      · simpa [strEnd, hb] using ih

/-- In a nonempty string the backward search stops before the terminator. -/
theorem rindex_lt (hc : c ≠ nul) {l : List α} (h : 0 < strEnd nul l) :
    rindex nul c l < strEnd nul l := by
  obtain ⟨n, hn⟩ : ∃ n, strEnd nul l = n + 1 := ⟨strEnd nul l - 1, by omega⟩
  have hne := getElem?_strEnd_ne hc l
  rw [hn] at hne
  rw [rindex, hn, scanBack, if_neg hne]
  have := scanBack_le (c := c) l n
  omega

/-- **Behind the place the backward search finds there is no separator any more**, unless the
string is empty and the search has left it. -/
theorem not_mem_text_drop_rindex (hc : c ≠ nul) {l : List α} (h : 0 < strEnd nul l) :
    c ∉ text nul (l.drop (rindex nul c l + 1)) := by
  intro hmem
  have hlt := rindex_lt hc h
  obtain ⟨j, hj, hcj⟩ := List.mem_iff_getElem.1 hmem
  have hval : l[rindex nul c l + 1 + j]? = some c := by
    rw [← List.getElem?_drop, getElem?_text hj, List.getElem?_eq_getElem hj, hcj]
  rw [text_drop (by omega), List.length_drop, ← strEnd_eq_length_text] at hj
  have hgt : scanBack l c (strEnd nul l) < rindex nul c l + 1 + j := by
    change rindex nul c l < _
    omega
  exact ne_of_scanBack_lt hgt (by omega) hval

/-! ### The last component -/

/-- What stands behind the last `c`. -/
def afterLast (c : α) : List α → Option (List α)
  | [] => none
  | b :: l => (afterLast c l).or (if b = c then some l else none)

theorem afterLast_eq_none {l : List α} : afterLast c l = none ↔ c ∉ l := by
  induction l with
  | nil => simp [afterLast]
  | cons b l ih =>
      by_cases hb : b = c
      · simp [afterLast, hb]
      · simp [afterLast, hb, ih, Ne.symm hb]

theorem afterLast_eq_some {l t : List α} (h : afterLast c l = some t) :
    ∃ a, l = a ++ c :: t ∧ c ∉ t := by
  induction l with
  | nil => cases h
  | cons b l ih =>
      rw [afterLast] at h
      cases hl : afterLast c l with
      | some u =>
          rw [hl, Option.some_or] at h
          obtain rfl := Option.some.inj h
          obtain ⟨a, ha, hct⟩ := ih hl
          exact ⟨b :: a, by rw [ha, List.cons_append], hct⟩
      | none =>
          rw [hl, Option.none_or] at h
          split_ifs at h with hb
          obtain rfl := Option.some.inj h
          exact ⟨[], by rw [hb, List.nil_append], afterLast_eq_none.1 hl⟩

/-- The part of a string that a program works on when it goes one place on from the place the
backward search has found: what stands behind the last separator or, without one, everything but
the first character. -/
def component (c : α) (l : List α) : List α := (afterLast c l).getD l.tail

theorem mem_of_mem_component {b : α} {l : List α} (h : b ∈ component c l) : b ∈ l := by
  rw [component] at h
  cases hl : afterLast c l with
  | none =>
      rw [hl] at h
      exact List.mem_of_mem_tail h
  | some t =>
      obtain ⟨a, rfl, -⟩ := afterLast_eq_some hl
      rw [hl] at h
      exact List.mem_append_right a (List.mem_cons_of_mem c h)

/-- Without a separator the backward search ends at the start. -/
theorem rindex_of_notMem {s : List α} (hs : nul ∉ s) (hc : c ≠ nul) (hcs : c ∉ s) (rest : List α) :
    rindex nul c (s ++ nul :: rest) = 0 := by
  by_contra hne
  have hpos : 0 < rindex nul c (s ++ nul :: rest) := Nat.pos_of_ne_zero hne
  have hlen : strEnd nul (s ++ nul :: rest) = s.length := by
    rw [strEnd_eq_length_text, text_append hs, text_nul, List.append_nil]
  have hle := scanBack_le (c := c) (s ++ nul :: rest) (strEnd nul (s ++ nul :: rest))
  have hlt := rindex_lt (l := s ++ nul :: rest) hc (hpos.trans_le hle)
  have hit := getElem?_scanBack hpos
  rw [hlen] at hlt
  rw [← rindex, List.getElem?_append_left hlt] at hit
  exact hcs (List.mem_of_getElem? hit)

/-- **One place on from the place the backward search has found stands the component**, unless the
string is empty. -/
theorem drop_rindex (s : Str nul) (hc : c ≠ nul) (hs : s.chars ≠ []) (rest : List α) :
    (s.mem rest).drop (rindex nul c (s.mem rest) + 1) = component c s.chars ++ nul :: rest := by
  rw [component, Str.mem]
  cases hl : afterLast c s.chars with
  | none =>
      rw [rindex_of_notMem s.nul_notMem hc (afterLast_eq_none.1 hl)]
      cases hchars : s.chars with
      | nil => exact absurd hchars hs
      | cons b l => rfl
  | some t =>
      obtain ⟨a, ha, hct⟩ := afterLast_eq_some hl
      have hnul := s.nul_notMem
      rw [ha, List.mem_append, not_or, List.mem_cons, not_or] at hnul
      rw [ha, List.append_assoc, List.cons_append,
        rindex_of_last hnul.1 hnul.2.2 hc hct rest]
      simp

end

/-! ### Padded fields -/

/-- The field without its blanks. -/
def keep (blank : α) (l : List α) : List α := l.filter fun b => b ≠ blank

/-- The text padded with blanks to a width. -/
def pad (blank : α) (n : ℕ) (l : List α) : List α := l ++ List.replicate (n - l.length) blank

/-- The blanks of the field form a suffix of it: behind a blank there are only blanks. -/
def BlankSuffix (blank : α) (l : List α) : Prop :=
  l.Pairwise fun a b => a = blank → b = blank

section

variable {blank : α}

theorem keep_append (l l' : List α) : keep blank (l ++ l') = keep blank l ++ keep blank l' :=
  List.filter_append ..

theorem keep_cons_blank (l : List α) : keep blank (blank :: l) = keep blank l := by
  simp [keep]

theorem keep_cons_of_ne {b : α} (hb : b ≠ blank) (l : List α) :
    keep blank (b :: l) = b :: keep blank l := by
  simp [keep, hb]

theorem keep_length_le (blank : α) (l : List α) : (keep blank l).length ≤ l.length :=
  List.length_filter_le ..

theorem mem_keep {b : α} {l : List α} : b ∈ keep blank l ↔ b ∈ l ∧ b ≠ blank := by
  simp [keep]

omit [DecidableEq α] in
theorem pad_length {n : ℕ} {l : List α} (h : l.length ≤ n) : (pad blank n l).length = n := by
  simp [pad]
  omega

omit [DecidableEq α] in
theorem pad_cons (b : α) (n : ℕ) (l : List α) :
    pad blank (n + 1) (b :: l) = b :: pad blank n l := by
  simp [pad]

/-- A text without blanks comes back from its field. -/
theorem keep_pad {l : List α} (hl : blank ∉ l) (n : ℕ) : keep blank (pad blank n l) = l := by
  have hpadding : keep blank (List.replicate (n - l.length) blank) = [] := by
    simp [keep]
  have htext : keep blank l = l := by
    rw [keep, List.filter_eq_self]
    intro b hb
    simpa using ne_of_mem_of_not_mem hb hl
  rw [pad, keep_append, htext, hpadding, List.append_nil]

theorem keep_eq_nil_iff {l : List α} : keep blank l = [] ↔ ∀ b ∈ l, b = blank := by
  simp [keep, List.filter_eq_nil_iff]

/-- **Dropping the blanks of a field and padding again gives the field back exactly when its blanks
form a suffix of it.** -/
theorem pad_keep_iff (blank : α) (l : List α) :
    pad blank l.length (keep blank l) = l ↔ BlankSuffix blank l := by
  induction l with
  | nil => simp [pad, keep, BlankSuffix]
  | cons b l ih =>
      rw [BlankSuffix, List.pairwise_cons]
      by_cases hb : b = blank
      · subst hb
        rw [keep_cons_blank]
        constructor
        · intro h
          -- the first cell is blank, so nothing was kept at all
          have hnil : keep b l = [] := by
            cases hk : keep b l with
            | nil => rfl
            | cons x xs =>
                rw [hk, List.length_cons, pad_cons, List.cons.injEq] at h
                exact absurd h.1 (mem_keep.1 (hk ▸ List.mem_cons_self ..)).2
          have hall := keep_eq_nil_iff.1 hnil
          refine ⟨fun a ha _ => hall a ha, List.pairwise_of_forall_mem_list ?_⟩
          intro a ha a' ha' _
          exact hall a' ha'
        · rintro ⟨hall, -⟩
          have hnil : keep b l = [] := keep_eq_nil_iff.2 fun a ha => hall a ha rfl
          rw [hnil, List.length_cons]
          simp only [pad, List.nil_append, List.length_nil, Nat.sub_zero, List.replicate_succ]
          rw [List.eq_replicate_of_mem fun a ha => hall a ha rfl]
          simp
      · rw [keep_cons_of_ne hb, List.length_cons, pad_cons, List.cons.injEq, ih]
        constructor
        · rintro ⟨-, h⟩
          exact ⟨fun a _ h' => absurd h' hb, h⟩
        · rintro ⟨-, h⟩
          exact ⟨rfl, h⟩

end

end CString

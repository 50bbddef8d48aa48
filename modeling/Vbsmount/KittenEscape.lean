/-
**Numbers and escape sequences in messages.**

A message is spelt in a small language: a character other than the backslash stands for itself; a
backslash and a letter stand for a control character; a backslash, one more character and digits
stand for a character by its number.  The number is read behind the character that follows the
backslash, also when that is a digit itself, and where there is no number that character is passed
over and the next one is stored without being taken.

Main definitions:

* `Digits`, `StartsNumber` — digits of a base with their values, and a string that starts with as
  many of them as are asked for;
* `Spelt`, `Closed` — the spellings of a message, and the strings that are one;
* `escape` — one of them.

Main results:

* `mystrtoul_digits`, `mystrtoul_of_not_starts` — the two results of `mystrtoul`;
* `reads_spelt` — the loop of `processEscChars` takes a spelling and stops at its terminator;
* `processEscChars_spelt` — **`processEscChars` replaces a spelling by its message**, and nothing in
  front of the spelling or behind its terminator changes;
* `closed_of_getLast?` — what does not end with a backslash is a spelling;
* `processEscChars_closed` — **every string that does not end with a backslash is replaced by its
  one message**;
* `spelt_escape`, `processEscChars_escape` — every message has a spelling, which is undone;
* `spelt_octal`, `processEscChars_octal` — **three octal digits behind a backslash are not the
  number that they spell**;
* `exists_reads_escReader` — in memory that ends with two terminators the loop always stops.
-/

import Vbsmount.Kitten

set_option relaxedAutoImplicit false
set_option autoImplicit false

namespace Vbsmount

open CString InPlace

/-! ### Numbers -/

/-- Digits of a base, with their values. -/
def Digits (base : ℕ) (ds : List (BitVec 8)) (vs : List ℕ) : Prop :=
  List.Forall₂ (fun ch v => digitOf ch = some v ∧ v < base) ds vs

/-- The string starts with that many digits. -/
def StartsNumber (base size : ℕ) (l : List (BitVec 8)) : Prop :=
  ∃ ds vs rest, l = ds ++ rest ∧ ds.length = size ∧ Digits base ds vs

/-- The number that digits spell, the first one being the highest. -/
def number (base : ℕ) (vs : List ℕ) : ℕ := Nat.ofDigits base vs.reverse

theorem number_append (base : ℕ) (vs : List ℕ) (v : ℕ) :
    number base (vs ++ [v]) = number base vs * base + v := by
  simp [number, Nat.ofDigits_cons, Nat.mul_comm, Nat.add_comm]

theorem number_lt {base : ℕ} (hbase : 1 < base) {vs : List ℕ} (h : ∀ v ∈ vs, v < base) :
    number base vs < base ^ vs.length := by
  have hlt := Nat.ofDigits_lt_base_pow_length hbase fun v hv => h v (List.mem_reverse.1 hv)
  simpa [number] using hlt

theorem digitOf_chNul : digitOf chNul = none := by decide

theorem Digits.lt {base : ℕ} {ds : List (BitVec 8)} {vs : List ℕ} (h : Digits base ds vs) :
    ∀ v ∈ vs, v < base := by
  induction h with
  | nil => simp
  | cons hd _ ih => simpa using ⟨hd.2, ih⟩

theorem Digits.length_eq {base : ℕ} {ds : List (BitVec 8)} {vs : List ℕ} (h : Digits base ds vs) :
    vs.length = ds.length := (List.Forall₂.length_eq h).symm

/-- The loop over digits, with the digits that have been read already. -/
theorem mystrtoulLoop_digits {base : ℕ} {ds : List (BitVec 8)} {vs : List ℕ}
    (h : Digits base ds vs) (us : List ℕ) (rest : List (BitVec 8)) :
    mystrtoulLoop base ds.length (ds ++ rest) (BitVec.ofNat 16 (number base us)) =
      some (BitVec.ofNat 16 (number base (us ++ vs))) := by
  induction h generalizing us with
  | nil => simp [mystrtoulLoop]
  | @cons ch v ds vs hd _ ih =>
      have hstep := ih (us ++ [v])
      rw [number_append, BitVec.ofNat_add, BitVec.ofNat_mul, List.append_assoc,
        List.singleton_append] at hstep
      simp only [List.length_cons, List.cons_append, mystrtoulLoop, hd.1,
        if_neg (Nat.not_le.2 hd.2)]
      exact hstep

/-- **Digits are read as the number that they spell**, up to the width of an `int`. -/
theorem mystrtoul_digits {base : ℕ} {ds : List (BitVec 8)} {vs : List ℕ} (h : Digits base ds vs)
    (rest : List (BitVec 8)) :
    mystrtoul (ds ++ rest) base ds.length = some (BitVec.ofNat 16 (number base vs)) :=
  mystrtoulLoop_digits h [] rest

theorem mystrtoulLoop_of_not_starts {base : ℕ} : ∀ {size : ℕ} {s rest : List (BitVec 8)}
    (ret : BitVec 16), ¬ StartsNumber base size s →
    mystrtoulLoop base size (s ++ chNul :: rest) ret = some (-1) := by
  intro size
  induction size with
  | zero => exact fun _ h => absurd ⟨[], [], _, rfl, rfl, List.Forall₂.nil⟩ h
  | succ size ih =>
      intro s rest ret h
      cases s with
      | nil => simp [mystrtoulLoop, digitOf_chNul]
      | cons ch s =>
          rw [List.cons_append, mystrtoulLoop]
          cases hd : digitOf ch with
          | none => rfl
          | some v =>
              by_cases hv : base ≤ v
              · simp [hv]
              · -- the digits behind this one are missing
                have htail : ¬ StartsNumber base size s := by
                  rintro ⟨ds, vs, t, rfl, hlen, hds⟩
                  exact h ⟨ch :: ds, v :: vs, t, rfl, by rw [List.length_cons, hlen],
                    List.Forall₂.cons ⟨hd, Nat.not_le.1 hv⟩ hds⟩
                simpa [hv] using ih _ htail

/-- Where digits are missing in front of the terminator there is no number. -/
theorem mystrtoul_of_not_starts {base size : ℕ} {s : List (BitVec 8)}
    (h : ¬ StartsNumber base size s) (rest : List (BitVec 8)) :
    mystrtoul (s ++ chNul :: rest) base size = some (-1) :=
  mystrtoulLoop_of_not_starts 0 h

/-! ### Spellings -/

/-- The base of the number behind a backslash and `ch`, and how many digits it has. -/
def numberFormat (ch : BitVec 8) : ℕ × ℕ := if ch = 0x78 then (16, 2) else (8, 3)

/-- The string behind a backslash and `ch` starts with the digits of a number. -/
def StartsCode (ch : BitVec 8) (s : List (BitVec 8)) : Prop :=
  StartsNumber (numberFormat ch).1 (numberFormat ch).2 s

/-- The spellings of a message. -/
inductive Spelt : List (BitVec 8) → List (BitVec 8) → Prop
  | nil : Spelt [] []
  | plain {c : BitVec 8} {s t : List (BitVec 8)} (hc : c ≠ chBackslash) (h : Spelt s t) :
      Spelt (c :: s) (c :: t)
  | letter {ch c : BitVec 8} {s t : List (BitVec 8)} (hch : escLetter ch = some c) (h : Spelt s t) :
      Spelt (chBackslash :: ch :: s) (c :: t)
  | code {ch : BitVec 8} {ds : List (BitVec 8)} {vs : List ℕ} {s t : List (BitVec 8)}
      (hch : escLetter ch = none) (hlen : ds.length = (numberFormat ch).2)
      (hds : Digits (numberFormat ch).1 ds vs) (h : Spelt s t) :
      Spelt (chBackslash :: ch :: (ds ++ s)) (BitVec.ofNat 8 (number (numberFormat ch).1 vs) :: t)
  | loose {ch c : BitVec 8} {s t : List (BitVec 8)} (hch : escLetter ch = none)
      (hno : ¬ StartsCode ch (c :: s)) (h : Spelt (c :: s) t) :
      Spelt (chBackslash :: ch :: c :: s) (c :: t)
  | last {ch : BitVec 8} (hch : escLetter ch = none) : Spelt [chBackslash, ch] [chNul]

/-- A string that is a spelling: no backslash is left over at its end. -/
def Closed (s : List (BitVec 8)) : Prop := ∃ t, Spelt s t

/-- The numbers that can be asked for fit into a positive `int`. -/
theorem toInt_ofNat_nonneg {n : ℕ} (h : n < 32768) : 0 ≤ (BitVec.ofNat 16 n).toInt := by
  have hn : (BitVec.ofNat 16 n).toNat = n := by
    rw [BitVec.toNat_ofNat]
    omega
  rw [BitVec.toInt_eq_toNat_of_lt (by omega), hn]
  omega

theorem number_numberFormat_lt {ch : BitVec 8} {ds : List (BitVec 8)} {vs : List ℕ}
    (hlen : ds.length = (numberFormat ch).2) (hds : Digits (numberFormat ch).1 ds vs) :
    number (numberFormat ch).1 vs < 32768 := by
  rw [← hds.length_eq] at hlen
  rw [numberFormat] at *
  split_ifs at * with hx
  · exact (number_lt (by decide) hds.lt).trans_le (hlen ▸ by decide)
  · exact (number_lt (by decide) hds.lt).trans_le (hlen ▸ by decide)

theorem escNumber_digits {base : ℕ} {ds : List (BitVec 8)} {vs : List ℕ} (h : Digits base ds vs)
    (hlt : number base vs < 32768) (rest : List (BitVec 8)) :
    escNumber (ds ++ rest) base ds.length = some (BitVec.ofNat 8 (number base vs), ds.length) := by
  have hlow : (BitVec.ofNat 16 (number base vs)).setWidth 8 = BitVec.ofNat 8 (number base vs) := by
    apply BitVec.eq_of_toNat_eq
    simp only [BitVec.toNat_setWidth, BitVec.toNat_ofNat]
    omega
  rw [escNumber, mystrtoul_digits h]
  simp [toInt_ofNat_nonneg hlt, hlow]

theorem escNumber_of_not_starts {base size : ℕ} {s : List (BitVec 8)}
    (h : ¬ StartsNumber base size s) (rest : List (BitVec 8)) :
    escNumber (s ++ chNul :: rest) base size =
      some ((s ++ chNul :: rest).head (by simp), 0) := by
  have hminus : ¬ 0 ≤ (-1 : BitVec 16).toInt := by decide
  rw [escNumber, mystrtoul_of_not_starts h]
  simp only [if_neg hminus]
  rw [List.head?_eq_some_head (by simp)]
  rfl

/-- A round on a character that is no backslash. -/
theorem escReader_plain {c : BitVec 8} (hc : c ≠ chBackslash) (l : List (BitVec 8)) :
    escReader (c :: l) = some (c, 1) := by
  simp [escReader, hc]

/-- A round on a backslash and a letter. -/
theorem escReader_letter {ch c : BitVec 8} (hch : escLetter ch = some c) (l : List (BitVec 8)) :
    escReader (chBackslash :: ch :: l) = some (c, 2) := by
  simp [escReader, hch]

/-- A round on a backslash and another character. -/
theorem escReader_number {ch : BitVec 8} (hch : escLetter ch = none) (l : List (BitVec 8)) :
    escReader (chBackslash :: ch :: l) =
      (escNumber l (numberFormat ch).1 (numberFormat ch).2).map fun (c, k) => (c, k + 2) := by
  by_cases hx : ch = 120#8
  · subst hx
    simp [escReader, hch, numberFormat]
  · simp [escReader, hch, numberFormat, hx]

/-- A round on a backslash and a number. -/
theorem escReader_code {ch : BitVec 8} {ds : List (BitVec 8)} {vs : List ℕ}
    (hch : escLetter ch = none) (hlen : ds.length = (numberFormat ch).2)
    (hds : Digits (numberFormat ch).1 ds vs) (l : List (BitVec 8)) :
    escReader (chBackslash :: ch :: (ds ++ l)) =
      some (BitVec.ofNat 8 (number (numberFormat ch).1 vs), ds.length + 2) := by
  rw [escReader_number hch, ← hlen, escNumber_digits hds (number_numberFormat_lt hlen hds)]
  rfl

/-- A round on a backslash where there is no number: the character behind `ch` is put out. -/
theorem escReader_loose {ch : BitVec 8} {s : List (BitVec 8)} (hch : escLetter ch = none)
    (hno : ¬ StartsCode ch s) (rest : List (BitVec 8)) :
    escReader (chBackslash :: ch :: (s ++ chNul :: rest)) =
      some ((s ++ chNul :: rest).head (by simp), 2) := by
  rw [escReader_number hch, escNumber_of_not_starts hno]
  rfl

theorem not_startsCode_nil (ch : BitVec 8) : ¬ StartsCode ch [] := by
  rintro ⟨ds, vs, t, hds, hlen, -⟩
  rw [(List.append_eq_nil_iff.1 hds.symm).1, numberFormat] at hlen
  split_ifs at hlen

theorem advances_escReader : escReader.Advances := by
  intro l c k h
  cases l with
  | nil => cases h
  | cons ch l =>
      by_cases hch : ch = chBackslash
      · subst hch
        cases l with
        | nil => simp [escReader] at h
        | cons ch l =>
            cases hl : escLetter ch with
            | some c' =>
                rw [escReader_letter hl] at h
                simp only [Option.some.injEq, Prod.mk.injEq] at h
                omega
            | none =>
                rw [escReader_number hl, Option.map_eq_some_iff] at h
                obtain ⟨⟨c', k'⟩, -, heq⟩ := h
                simp only [Prod.mk.injEq] at heq
                omega
      · rw [escReader_plain hch] at h
        simp only [Option.some.injEq, Prod.mk.injEq] at h
        omega

/-! ### Reading a spelling -/

theorem notMem_of_append {s s' : List (BitVec 8)} (h : chNul ∉ s ++ s') : chNul ∉ s' :=
  fun hmem => h (List.mem_append_right s hmem)

/-- **The loop takes a spelling and stops at its terminator**, whatever lies behind that. -/
theorem reads_spelt {s t : List (BitVec 8)} (h : Spelt s t) (hs : chNul ∉ s)
    (rest : List (BitVec 8)) : Reads chNul escReader (s ++ chNul :: rest) t (chNul :: rest) := by
  have hback : chBackslash ≠ chNul := by decide
  induction h with
  | nil => exact Reads.stop rest
  | @plain c s t hc _ ih =>
      have hnul : c ≠ chNul := fun h => hs (h ▸ List.mem_cons_self ..)
      exact Reads.step hnul (escReader_plain hc _) (ih fun h => hs (List.mem_cons_of_mem _ h))
  | @letter ch c s t hch _ ih =>
      exact Reads.step hback (escReader_letter hch _) (ih (notMem_of_append (s := [_, ch]) hs))
  | @code ch ds vs s t hch hlen hds _ ih =>
      have hread := ih (notMem_of_append (s := chBackslash :: ch :: ds) hs)
      rw [List.cons_append, List.cons_append, List.append_assoc]
      refine Reads.step hback (escReader_code hch hlen hds _) ?_
      simpa using hread
  | @loose ch c s t hch hno _ ih =>
      exact Reads.step hback (escReader_loose hch hno rest)
        (ih (notMem_of_append (s := [_, ch]) hs))
  | @last ch hch =>
      exact Reads.step hback (escReader_loose hch (not_startsCode_nil ch) rest) (Reads.stop rest)

/-- **`processEscChars` replaces a spelling by its message.**  The message is not longer; what
lies in front of the spelling, and behind its terminator, is as it was. -/
theorem processEscChars_spelt {s t : List (BitVec 8)} (h : Spelt s t) (hs : chNul ∉ s)
    (pre rest : List (BitVec 8)) :
    ∃ gap, t.length + gap.length = s.length ∧ (t ++ chNul :: gap).getLast? = some chNul ∧
      processEscChars (pre ++ (s ++ chNul :: rest)) pre.length =
        some (pre ++ (t ++ chNul :: (gap ++ rest))) := by
  have hreads := reads_spelt h hs rest
  have hlen := hreads.length_le advances_escReader
  simp only [List.length_append, List.length_cons] at hlen
  have hahead : (pre ++ (s ++ chNul :: rest)).drop pre.length = s ++ chNul :: rest :=
    List.drop_left
  have hle : t.length + 1 ≤ (s ++ [chNul]).length := by
    rw [List.length_append, List.length_singleton]
    omega
  refine ⟨(s ++ [chNul]).drop (t.length + 1), ?_, ?_, ?_⟩
  · rw [List.length_drop, List.length_append, List.length_singleton]
    omega
  · rw [List.getLast?_append_cons, List.getLast?_cons, List.getLast?_drop]
    split_ifs
    · rfl
    · simp
  · rw [processEscChars, run_eq hreads advances_escReader hahead le_rfl (by simp)]
    have hbehind : (pre ++ (s ++ chNul :: rest)).drop (pre.length + t.length + 1) =
        (s ++ [chNul]).drop (t.length + 1) ++ rest := by
      rw [Nat.add_assoc, List.drop_append, List.drop_eq_nil_of_le (by omega), List.nil_append,
        Nat.add_sub_cancel_left, ← List.drop_append_of_le_length hle]
      simp
    rw [List.take_left, hbehind]

theorem getLast?_of_append {a s : List (BitVec 8)} {c : BitVec 8}
    (h : (a ++ s).getLast? ≠ some c) : s.getLast? ≠ some c := by
  intro hs
  rw [List.getLast?_append, hs] at h
  exact h rfl

/-- **What does not end with a backslash is a spelling.** -/
theorem closed_of_getLast? {s : List (BitVec 8)} (h : s.getLast? ≠ some chBackslash) :
    Closed s := by
  induction hn : s.length using Nat.strong_induction_on generalizing s with
  | _ n ih =>
      cases s with
      | nil => exact ⟨[], .nil⟩
      | cons c s =>
          rw [List.length_cons] at hn
          by_cases hc : c = chBackslash
          · subst hc
            cases s with
            | nil => exact absurd rfl h
            | cons ch s =>
                rw [List.length_cons] at hn
                have htail : s.getLast? ≠ some chBackslash :=
                  getLast?_of_append (a := [chBackslash, ch]) h
                cases hch : escLetter ch with
                | some c =>
                    obtain ⟨t, ht⟩ := ih s.length (by omega) htail rfl
                    exact ⟨c :: t, .letter hch ht⟩
                | none =>
                    by_cases hno : StartsCode ch s
                    · obtain ⟨ds, vs, s, rfl, hlen, hds⟩ := hno
                      rw [List.length_append] at hn
                      obtain ⟨t, ht⟩ := ih s.length (by omega) (getLast?_of_append htail) rfl
                      exact ⟨_, .code hch hlen hds ht⟩
                    · cases s with
                      | nil => exact ⟨[chNul], .last hch⟩
                      | cons c s =>
                          obtain ⟨t, ht⟩ := ih (c :: s).length (by omega) htail rfl
                          exact ⟨c :: t, .loose hch hno ht⟩
          · obtain ⟨t, ht⟩ := ih s.length (by omega) (getLast?_of_append (a := [c]) h) rfl
            exact ⟨c :: t, .plain hc ht⟩

/-- A spelling has one message. -/
theorem Spelt.unique {s t t' : List (BitVec 8)} (h : Spelt s t) (h' : Spelt s t')
    (hs : chNul ∉ s) : t = t' :=
  ((reads_spelt h hs []).unique (reads_spelt h' hs [])).1

/-! ### The octal form -/

theorem digits_octal_iff {d : BitVec 8} {v : ℕ} :
    digitOf d = some v ∧ v < 8 ↔ 0x30 ≤ d ∧ d ≤ 0x37 ∧ v = d.toNat - 0x30 := by
  simp only [digitOf, BitVec.le_def]
  constructor
  · rintro ⟨hd, hv⟩
    split_ifs at hd <;> simp at hd <;> simp at * <;> omega
  · rintro ⟨h₁, h₂, rfl⟩
    simp at h₁ h₂
    rw [if_pos (by simp; omega)]
    exact ⟨rfl, by omega⟩

/-- **Three octal digits behind a backslash are not the number that they spell.**  The first one is
passed over and the second one is doubled, unless a fourth one follows: then the last three are the
number. -/
theorem spelt_octal {d₁ d₂ d₃ : BitVec 8} {s t : List (BitVec 8)} (h₁ : 0x30 ≤ d₁ ∧ d₁ ≤ 0x37)
    (h₂ : d₂ ≠ chBackslash) (h₃ : d₃ ≠ chBackslash) (hs : ∀ d ∈ s.head?, ¬ (0x30 ≤ d ∧ d ≤ 0x37))
    (h : Spelt s t) : Spelt (chBackslash :: d₁ :: d₂ :: d₃ :: s) (d₂ :: d₂ :: d₃ :: t) := by
  have hletter : escLetter d₁ = none ∧ d₁ ≠ 0x78 := by
    revert d₁
    decide
  have hno : ¬ StartsCode d₁ (d₂ :: d₃ :: s) := by
    rw [StartsCode, numberFormat, if_neg hletter.2]
    rintro ⟨ds, vs, rest, heq, hlen, hds⟩
    match ds, vs, hlen, hds with
    | [_, _, d], [_, _, v], _, .cons _ (.cons _ (.cons hd .nil)) =>
        simp only [List.cons_append, List.nil_append, List.cons.injEq] at heq
        obtain ⟨h₁, h₂, -⟩ := digits_octal_iff.1 hd
        exact hs d (by rw [heq.2.2]; rfl) ⟨h₁, h₂⟩
  exact .loose hletter.1 hno (.plain h₂ (.plain h₃ h))

/-- **Four octal digits behind a backslash are the number that the last three spell.** -/
theorem spelt_octal_four {d₁ d₂ d₃ d₄ : BitVec 8} {s t : List (BitVec 8)}
    (h₁ : 0x30 ≤ d₁ ∧ d₁ ≤ 0x37) (h₂ : 0x30 ≤ d₂ ∧ d₂ ≤ 0x37) (h₃ : 0x30 ≤ d₃ ∧ d₃ ≤ 0x37)
    (h₄ : 0x30 ≤ d₄ ∧ d₄ ≤ 0x37) (h : Spelt s t) :
    Spelt (chBackslash :: d₁ :: d₂ :: d₃ :: d₄ :: s) (BitVec.ofNat 8
      (64 * (d₂.toNat - 0x30) + 8 * (d₃.toNat - 0x30) + (d₄.toNat - 0x30)) :: t) := by
  have hletter : escLetter d₁ = none ∧ d₁ ≠ 0x78 := by
    revert d₁
    decide
  have hformat : numberFormat d₁ = (8, 3) := if_neg hletter.2
  have hdigit {d : BitVec 8} (hd : 0x30 ≤ d ∧ d ≤ 0x37) :
      digitOf d = some (d.toNat - 0x30) ∧ d.toNat - 0x30 < 8 :=
    digits_octal_iff.2 ⟨hd.1, hd.2, rfl⟩
  have hds : Digits (numberFormat d₁).1 [d₂, d₃, d₄]
      [d₂.toNat - 0x30, d₃.toNat - 0x30, d₄.toNat - 0x30] := by
    rw [hformat]
    exact .cons (hdigit h₂) (.cons (hdigit h₃) (.cons (hdigit h₄) .nil))
  have hnumber : number (numberFormat d₁).1 [d₂.toNat - 0x30, d₃.toNat - 0x30, d₄.toNat - 0x30] =
      64 * (d₂.toNat - 0x30) + 8 * (d₃.toNat - 0x30) + (d₄.toNat - 0x30) := by
    rw [hformat]
    simp [number, Nat.ofDigits_cons]
    omega
  have hcode := Spelt.code hletter.1 (by rw [hformat]; rfl) hds h
  rwa [hnumber] at hcode

/-! ### Memory that ends with two terminators -/

/-- What ahead of the loop keeps it in memory. -/
def EndsInNuls (l : List (BitVec 8)) : Prop := l = [chNul] ∨ ∃ p, l = p ++ [chNul, chNul]

/-- How far the loop can get. -/
def room (l : List (BitVec 8)) : ℕ := max 2 l.length

/-- **In memory that ends with two terminators the loop stops**, and what it puts out leaves room
for them. -/
theorem exists_reads_escReader {l : List (BitVec 8)} (hl : EndsInNuls l) :
    ∃ out rest, Reads chNul escReader l out rest ∧ EndsInNuls rest ∧
      out.length + room rest ≤ room l := by
  refine exists_reads EndsInNuls room ?_ ?_ hl
  · rintro (h | ⟨p, h⟩)
    · cases h
    · simp at h
  · intro b l hl hb
    obtain ⟨p, rfl⟩ : ∃ p, l = p ++ [chNul, chNul] := by
      rcases hl with h | ⟨p, h⟩
      · exact absurd (List.cons.inj h).1 hb
      · cases p with
        | nil => exact absurd (List.cons.inj h).1 hb
        | cons b p => exact ⟨p, (List.cons.inj h).2⟩
    by_cases hback : b = chBackslash
    · subst hback
      cases p with
      | nil => exact ⟨chNul, 2, by decide, .inl rfl, by decide⟩
      | cons ch p =>
          cases hch : escLetter ch with
          | some c => exact ⟨c, 2, escReader_letter hch _, .inr ⟨p, rfl⟩, by simp [room]⟩
          | none =>
              by_cases hno : StartsCode ch p
              · obtain ⟨ds, vs, p, rfl, hlen, hds⟩ := hno
                rw [List.cons_append, List.append_assoc]
                refine ⟨_, _, escReader_code hch hlen hds _, .inr ⟨p, by simp⟩, ?_⟩
                simp [room]
                omega
              · exact ⟨_, 2, escReader_loose hch hno [chNul], .inr ⟨p, rfl⟩, by simp [room]⟩
    · exact ⟨b, 1, escReader_plain hback _, .inr ⟨p, rfl⟩, by simp [room]⟩

/-! ### A spelling for every message -/

/-- A character as it is spelt. -/
def escapeChar (c : BitVec 8) : List (BitVec 8) :=
  if c = chBackslash then [chBackslash, chBackslash]
  else if c = chLf then [chBackslash, 0x6E]
  else if c = chCr then [chBackslash, 0x72]
  else [c]

/-- A message as it is spelt. -/
def escape (t : List (BitVec 8)) : List (BitVec 8) := t.flatMap escapeChar

/-- **Every message has a spelling.** -/
theorem spelt_escape (t : List (BitVec 8)) : Spelt (escape t) t := by
  induction t with
  | nil => exact .nil
  | cons c t ih =>
      rw [escape, List.flatMap_cons, ← escape, escapeChar]
      split_ifs with hback hlf hcr
      · exact .letter (by rw [hback]; decide) ih
      · exact .letter (by rw [hlf]; decide) ih
      · exact .letter (by rw [hcr]; decide) ih
      · exact .plain hback ih

theorem notMem_escapeChar (c : BitVec 8) : chLf ∉ escapeChar c ∧ chCr ∉ escapeChar c ∧
    (c ≠ chNul → chNul ∉ escapeChar c) := by
  revert c
  decide

/-- The spelling has no line ends in it, and no terminators if the message has none. -/
theorem notMem_escape (t : List (BitVec 8)) :
    chLf ∉ escape t ∧ chCr ∉ escape t ∧ (chNul ∉ t → chNul ∉ escape t) := by
  induction t with
  | nil => simp [escape]
  | cons c t ih =>
      obtain ⟨hlf, hcr, hnul⟩ := ih
      have hcons : escape (c :: t) = escapeChar c ++ escape t := by simp [escape]
      have hchar := notMem_escapeChar c
      rw [hcons]
      simp only [List.mem_append, List.mem_cons, not_or]
      exact ⟨⟨hchar.1, hlf⟩, ⟨hchar.2.1, hcr⟩, fun h => ⟨hchar.2.2 (Ne.symm h.1), hnul h.2⟩⟩

/-! ### The messages in memory -/

/-- **Every string that does not end with a backslash is replaced by its one message.**  The message
is not longer, and what lies in front of the string and behind its terminator is as it was. -/
theorem processEscChars_closed {s : List (BitVec 8)} (hs : chNul ∉ s)
    (hlast : s.getLast? ≠ some chBackslash) (pre rest : List (BitVec 8)) :
    ∃ t gap, Spelt s t ∧ (∀ t', Spelt s t' → t' = t) ∧ t.length + gap.length = s.length ∧
      processEscChars (pre ++ (s ++ chNul :: rest)) pre.length =
        some (pre ++ (t ++ chNul :: (gap ++ rest))) := by
  obtain ⟨t, ht⟩ := closed_of_getLast? hlast
  obtain ⟨gap, hlen, -, hrun⟩ := processEscChars_spelt ht hs pre rest
  exact ⟨t, gap, ht, fun t' ht' => ht'.unique ht hs, hlen, hrun⟩

theorem processEscChars_closed_x : ∃ t gap, Spelt (ascii "\\x41b") t ∧
    (∀ t', Spelt (ascii "\\x41b") t' → t' = t) ∧ t.length + gap.length = 5 ∧
      processEscChars ([0x41] ++ (ascii "\\x41b" ++ chNul :: [])) 1 =
        some ([0x41] ++ (t ++ chNul :: (gap ++ []))) :=
  processEscChars_closed (s := ascii "\\x41b") (by decide) (by decide) [0x41] []

/-- **Octal numbers in memory.**  Behind a backslash, three octal digits that no fourth one follows
become the second one twice and the third one; of four, the last three are the number. -/
theorem processEscChars_octal {d₁ d₂ d₃ : BitVec 8} (h₁ : 0x30 ≤ d₁ ∧ d₁ ≤ 0x37)
    (h₂ : 0x30 ≤ d₂ ∧ d₂ ≤ 0x37) (h₃ : 0x30 ≤ d₃ ∧ d₃ ≤ 0x37) {s t : List (BitVec 8)}
    (h : Spelt s t) (hs : chNul ∉ s) (pre rest : List (BitVec 8)) :
    ((∀ d ∈ s.head?, ¬ (0x30 ≤ d ∧ d ≤ 0x37)) → ∃ gap, processEscChars
      (pre ++ ((chBackslash :: d₁ :: d₂ :: d₃ :: s) ++ chNul :: rest)) pre.length =
        some (pre ++ ((d₂ :: d₂ :: d₃ :: t) ++ chNul :: (gap ++ rest)))) ∧
      ∀ d₄, 0x30 ≤ d₄ ∧ d₄ ≤ 0x37 → ∃ gap, processEscChars
        (pre ++ ((chBackslash :: d₁ :: d₂ :: d₃ :: d₄ :: s) ++ chNul :: rest)) pre.length =
          some (pre ++ ((BitVec.ofNat 8 (64 * (d₂.toNat - 0x30) + 8 * (d₃.toNat - 0x30) +
            (d₄.toNat - 0x30)) :: t) ++ chNul :: (gap ++ rest))) := by
  have hdigit {d : BitVec 8} (hd : 0x30 ≤ d ∧ d ≤ 0x37) : d ≠ chBackslash ∧ chNul ≠ d := by
    revert d
    decide
  refine ⟨fun hhead => ?_, fun d₄ h₄ => ?_⟩
  · have hspelt := spelt_octal h₁ (hdigit h₂).1 (hdigit h₃).1 hhead h
    have hnul : chNul ∉ chBackslash :: d₁ :: d₂ :: d₃ :: s := by
      simp [hs, (hdigit h₁).2, (hdigit h₂).2, (hdigit h₃).2]
      decide
    obtain ⟨gap, -, -, hrun⟩ := processEscChars_spelt hspelt hnul pre rest
    exact ⟨gap, hrun⟩
  · have hspelt := spelt_octal_four h₁ h₂ h₃ h₄ h
    have hnul : chNul ∉ chBackslash :: d₁ :: d₂ :: d₃ :: d₄ :: s := by
      simp [hs, (hdigit h₁).2, (hdigit h₂).2, (hdigit h₃).2, (hdigit h₄).2]
      decide
    obtain ⟨gap, -, -, hrun⟩ := processEscChars_spelt hspelt hnul pre rest
    exact ⟨gap, hrun⟩

/-- The octal form of `A` is not read as one, between other bytes; with a digit in front of it, it
is. -/
theorem processEscChars_octal_A :
    (∃ gap, processEscChars ([0x5A] ++ ((chBackslash :: 0x31 :: 0x30 :: 0x31 :: [0x20, 0x78]) ++
        chNul :: [0x59])) 1 =
      some ([0x5A] ++ ((0x30 :: 0x30 :: 0x31 :: [0x20, 0x78]) ++ chNul :: (gap ++ [0x59])))) ∧
    ∃ gap, processEscChars ([0x5A] ++ ((chBackslash :: 0x30 :: 0x31 :: 0x30 :: 0x31 ::
        [0x20, 0x78]) ++ chNul :: [0x59])) 1 =
      some ([0x5A] ++ ((chA :: [0x20, 0x78]) ++ chNul :: (gap ++ [0x59]))) := by
  have hrest : Spelt [0x20, 0x78] [0x20, 0x78] := .plain (by decide) (.plain (by decide) .nil)
  constructor
  · exact (processEscChars_octal (by decide) (by decide) (by decide) hrest (by decide) [0x5A]
      [0x59]).1 (by decide)
  · exact (processEscChars_octal (by decide) (by decide) (by decide) hrest (by decide) [0x5A]
      [0x59]).2 0x31 (by decide)

end Vbsmount

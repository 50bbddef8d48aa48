/-
**What a catalogue says, and what the table says about it.**

A catalogue is a text of lines.  The lines that start with a digit and have a full stop in front of
their first colon, with a number on each side of it, are entries; the others are comments.  The
first entry with the keys asked for has the message.  `catread` takes this text apart in place, so
that the table it leaves behind points into what is left of the text.

Main definitions:

* `Entry`, `entryOf`, `entriesOf` — the entries of a text, from its lines;
* `message` — the message that a spelling stands for, up to its first terminator;
* `Table` — a table that points to the messages of entries;
* `Good`, `Shows` — a file that can be taken apart, and the statics whose lookups see entries;
* `lookup` — the message of the first entry with the keys asked for.

Main results:

* `keyOf_eq` — the two results of `mystrtoul` for a key;
* `catreadLine_spec`, `catreadLoop_spec` — a line, and the lines: what has been taken apart stays as
  it is, and the entries become entries of the table;
* `kittengets_eq` — looking up a message in a table;
* `kittengets_parseCatalog` — **the lookup in the table is the lookup in the text**.
-/

import Vbsmount.KittenEscape
import Vbsmount.Lib.Lines

set_option relaxedAutoImplicit false
set_option autoImplicit false

namespace Vbsmount

open CString

/-! ### Entries of a text -/

/-- An entry: its keys as they are stored, and the spelling of its message. -/
structure Entry where
  key1 : BitVec 8
  key2 : BitVec 8
  raw : List (BitVec 8)
  deriving DecidableEq

/-- The value of a decimal digit. -/
def decDigit (ch : BitVec 8) : Option ℕ := (digitOf ch).filter (· < 10)

/-- The key that a string stands for: a decimal number that is positive as an `int`, and then cut
down to a `char`. -/
def keyOf (s : List (BitVec 8)) : Option (BitVec 8) :=
  (s.mapM decDigit).bind fun vs =>
    if number 10 vs % 65536 < 32768 then some (BitVec.ofNat 8 (number 10 vs)) else none

/-- A line without the `'\r'` at its end. -/
def dropCr (line : List (BitVec 8)) : List (BitVec 8) :=
  if line.getLast? = some chCr then line.dropLast else line

/-- The entry of a line without its `'\r'`. -/
def parseLine : List (BitVec 8) → Option Entry
  | [] => none
  | c :: l =>
      if ¬ (0x30 ≤ c ∧ c ≤ 0x39) then none
      else
        (Lines.cut chColon (c :: l)).bind fun (front, raw) =>
          (Lines.cut chDot front).bind fun (first, second) =>
            (keyOf first).bind fun key1 => (keyOf second).map fun key2 => ⟨key1, key2, raw⟩

/-- The entry of a line. -/
def entryOf (line : List (BitVec 8)) : Option Entry := parseLine (dropCr line)

/-- The entries of a text. -/
def entriesOf (bs : List (BitVec 8)) : List Entry :=
  (Lines.linesOf chLf (text chNul bs)).filterMap entryOf

/-- The message of a spelling. -/
def message (raw : List (BitVec 8)) : List (BitVec 8) :=
  text chNul ((processEscChars (raw ++ [chNul]) 0).getD [])

/-- The first entry with the keys has the message. -/
def lookup (es : List Entry) (setnum msgnum : BitVec 16) : Option (List (BitVec 8)) :=
  (es.find? fun e => e.key1.setWidth 16 = setnum ∧ e.key2.setWidth 16 = msgnum).map
    fun e => message e.raw

/-! ### Keys -/

theorem mapM_decDigit_eq_some {s : List (BitVec 8)} {vs : List ℕ} :
    s.mapM decDigit = some vs ↔ Digits 10 s vs := by
  induction s generalizing vs with
  | nil =>
      cases vs with
      | nil => simp [Digits]
      | cons v vs => simp [Digits]
  | cons ch s ih =>
      have hdigit (v : ℕ) : decDigit ch = some v ↔ digitOf ch = some v ∧ v < 10 := by
        simp [decDigit, Option.filter_eq_some_iff]
      cases vs with
      | nil => simp [List.mapM_cons, Digits, Option.bind_eq_some_iff]
      | cons v vs => simp [List.mapM_cons, Option.bind_eq_some_iff, hdigit, ih, Digits]

/-- **A key is read as `mystrtoul` reads it.** -/
theorem keyOf_eq (s : List (BitVec 8)) : ∃ key,
    (∀ rest, mystrtoul (s ++ chNul :: rest) 10 s.length = some key) ∧
      keyOf s = if 0 ≤ key.toInt then some (key.setWidth 8) else none := by
  cases hs : s.mapM decDigit with
  | some vs =>
      refine ⟨BitVec.ofNat 16 (number 10 vs),
        fun _ => mystrtoul_digits (mapM_decDigit_eq_some.1 hs) _, ?_⟩
      have hsign : 0 ≤ (BitVec.ofNat 16 (number 10 vs)).toInt ↔
          number 10 vs % 65536 < 32768 := by
        rw [BitVec.toInt_eq_toNat_cond, BitVec.toNat_ofNat]
        split_ifs
        · omega
        · omega
      have hlow : (BitVec.ofNat 16 (number 10 vs)).setWidth 8 = BitVec.ofNat 8 (number 10 vs) := by
        apply BitVec.eq_of_toNat_eq
        simp only [BitVec.toNat_setWidth, BitVec.toNat_ofNat]
        omega
      simp only [keyOf, hs, Option.bind_some, hsign, hlow]
  | none =>
      have hno : ¬ StartsNumber 10 s.length s := by
        rintro ⟨ds, vs, t, heq, hlen, hds⟩
        have ht : t = [] := by
          have := congrArg List.length heq
          rw [List.length_append, hlen] at this
          exact List.eq_nil_of_length_eq_zero (by omega)
        rw [ht, List.append_nil] at heq
        rw [heq, mapM_decDigit_eq_some.2 hds] at hs
        cases hs
      refine ⟨-1, mystrtoul_of_not_starts hno, ?_⟩
      rw [if_neg (by decide), keyOf, hs]
      rfl

/-! ### Memory -/

theorem set_append_cons (a t : List (BitVec 8)) (b c : BitVec 8) :
    (a ++ b :: t).set a.length c = a ++ c :: t := by
  simp

/-- What is at the front of a string ends at its terminator. -/
theorem text_append_nul (t rest : List (BitVec 8)) :
    text chNul (t ++ chNul :: rest) = text chNul t := by
  induction t with
  | nil => simp [text]
  | cons c t ih =>
      by_cases hc : c = chNul
      · simp [text, hc]
      · simp [text, hc, ih]

/-- The message of a spelling is its message, as far as a terminator lets it be seen. -/
theorem message_eq {s t : List (BitVec 8)} (h : Spelt s t) (hs : chNul ∉ s) :
    message s = text chNul t := by
  obtain ⟨gap, -, -, hrun⟩ := processEscChars_spelt h hs [] []
  simp only [List.nil_append, List.append_nil, List.length_nil] at hrun
  rw [message, hrun, Option.getD_some, text_append_nul]

/-- What the `'\r'` leaves behind. -/
def crPad (line : List (BitVec 8)) : List (BitVec 8) :=
  if line.getLast? = some chCr then [chNul] else []

theorem length_dropCr (line : List (BitVec 8)) :
    (dropCr line).length + (crPad line).length = line.length := by
  rw [dropCr, crPad]
  split_ifs with h
  · have hne : line ≠ [] := by
      rintro rfl
      cases h
    have := List.length_pos_of_ne_nil hne
    simp
    omega
  · simp

/-- **A line is cut off**, unless it is empty and starts the buffer: then the cell in front of the
buffer is looked at. -/
theorem cutLine_eq {done line rest : List (BitVec 8)} (hne : done ++ line ≠ [])
    (hdone : done.getLast? ≠ some chCr) :
    cutLine (done ++ (line ++ chLf :: rest)) (done.length + line.length) =
      .ok (done ++ (dropCr line ++ chNul :: (crPad line ++ rest))) := by
  have hpos : done.length + line.length ≠ 0 := by
    rw [← List.length_append]
    exact fun h => hne (List.eq_nil_of_length_eq_zero h)
  have hset : (done ++ (line ++ chLf :: rest)).set (done.length + line.length) chNul =
      done ++ (line ++ chNul :: rest) := by
    rw [← List.append_assoc, ← List.length_append, set_append_cons, List.append_assoc]
  rw [cutLine]
  simp only [hset, if_neg hpos]
  -- the cell in front of the line end
  have hcell : (done ++ (line ++ chNul :: rest))[done.length + line.length - 1]? =
      (done ++ line).getLast? := by
    rw [← List.append_assoc, List.getLast?_eq_getElem?, List.length_append,
      List.getElem?_append_left (by rw [List.length_append]; omega)]
  rw [hcell, List.getLast?_append]
  cases hline : line.getLast? with
  | none =>
      obtain rfl := List.getLast?_eq_none_iff.1 hline
      simp [hdone, dropCr, crPad]
  | some c =>
      obtain ⟨l, rfl⟩ := List.getLast?_eq_some_iff.1 hline
      by_cases hc : c = chCr
      · subst hc
        simp [dropCr, crPad]
      · simp [hc, dropCr, crPad]

theorem mem_of_mem_dropCr {c : BitVec 8} {line : List (BitVec 8)} (h : c ∈ dropCr line) :
    c ∈ line := by
  rw [dropCr] at h
  split_ifs at h
  · exact List.mem_of_mem_dropLast h
  · exact h

/-! ### A line -/

/-- An entry of the table points to the message of an entry of the text, and the message with its
terminator lies in `m`. -/
def Points (m : List (BitVec 8)) (p : CatString) (e : Entry) : Prop :=
  p.key1 = e.key1 ∧ p.key2 = e.key2 ∧
    ∃ a t b, m = a ++ (t ++ chNul :: b) ∧ p.text = some a.length ∧ text chNul t = message e.raw

theorem Points.append {m : List (BitVec 8)} {p : CatString} {e : Entry} (h : Points m p e)
    (m' : List (BitVec 8)) : Points (m ++ m') p e := by
  obtain ⟨hkey1, hkey2, a, t, b, rfl, htext, hmsg⟩ := h
  exact ⟨hkey1, hkey2, a, t, b ++ m', by simp, htext, hmsg⟩

/-- The string at `start` in memory, and its length. -/
theorem strEnd_append_nul {s : List (BitVec 8)} (hs : chNul ∉ s) (rest : List (BitVec 8)) :
    strEnd chNul (s ++ chNul :: rest) = s.length := by
  rw [strEnd_eq_length_text, text_append hs, text_nul, List.append_nil]

/-- A line of fields: the colon and the full stop have become terminators, and it is left to look at
the keys and to replace the message. -/
theorem catreadLine_fields {k : Kitten} {done first second raw rest : List (BitVec 8)} {i : ℕ}
    {c : BitVec 8} {key1 key2 : BitVec 16}
    (hk : k.catcontents =
      done ++ ((c :: first) ++ chDot :: (second ++ chColon :: (raw ++ chNul :: rest))))
    (hfirst : chNul ∉ c :: first) (hsecond : chNul ∉ second)
    (hcolon : chColon ∉ (c :: first) ++ chDot :: second) (hdot : chDot ∉ c :: first)
    (hc : 0x30 ≤ c ∧ c ≤ 0x39)
    (hkey1 : ∀ l, mystrtoul ((c :: first) ++ chNul :: l) 10 (c :: first).length = some key1)
    (hkey2 : ∀ l, mystrtoul (second ++ chNul :: l) 10 second.length = some key2) :
    let pre := done ++ ((c :: first) ++ chNul :: (second ++ [chNul]))
    let m := pre ++ (raw ++ chNul :: rest)
    catreadLine k done.length i =
      if 0 ≤ key1.toInt ∧ 0 ≤ key2.toInt then
        if i < 128 then
          (processEscChars m pre.length).elim (.error .catcontents) fun m => .ok ({ k with
            catcontents := m
            catpoints := k.catpoints.set i ⟨key1.setWidth 8, key2.setWidth 8, some pre.length⟩ },
            i + 1)
        else .error .catpoints
      else .ok ({ k with catcontents := m }, i) := by
  intro pre m
  have hback : chNul ∉ (c :: first) ++ chDot :: second := by
    intro h
    rcases List.mem_append.1 h with h | h
    · exact hfirst h
    · exact hsecond ((List.mem_cons.1 h).resolve_left (by decide))
  -- the colon
  have hdrop : k.catcontents.drop done.length =
      c :: (first ++ chDot :: (second ++ chColon :: (raw ++ chNul :: rest))) := by
    rw [hk, List.drop_left]
    rfl
  have hindex₁ : strchr (c :: (first ++ chDot :: (second ++ chColon :: (raw ++ chNul :: rest))))
      chColon = some (some ((c :: first) ++ chDot :: second).length) := by
    have h := index_of_first hback hcolon (raw ++ chNul :: rest)
    simpa [strchr] using h
  have hset₁ : k.catcontents.set (done.length + ((c :: first) ++ chDot :: second).length) chNul =
      done ++ ((c :: first) ++ chDot :: (second ++ chNul :: (raw ++ chNul :: rest))) := by
    rw [hk]
    simp
  -- the full stop
  have hindex₂ : strchr ((c :: first) ++ chDot :: (second ++ chNul :: (raw ++ chNul :: rest)))
      chDot = some (some (c :: first).length) := index_of_first hfirst hdot _
  have hset₂ : (done ++ ((c :: first) ++ chDot :: (second ++ chNul :: (raw ++ chNul :: rest)))).set
      (done.length + (c :: first).length) chNul = m := by
    have h := set_append_cons (done ++ (c :: first)) (second ++ chNul :: (raw ++ chNul :: rest))
      chDot chNul
    rw [List.length_append, List.append_assoc] at h
    rw [h]
    simp [m, pre]
  -- the keys
  have hm : m = done ++ ((c :: first) ++ chNul :: (second ++ chNul :: (raw ++ chNul :: rest))) := by
    simp [m, pre]
  have hdrop₁ : m.drop done.length =
      (c :: first) ++ chNul :: (second ++ chNul :: (raw ++ chNul :: rest)) := by
    rw [hm, List.drop_left]
  have hdrop₂ : m.drop (done.length + (c :: first).length + 1) =
      second ++ chNul :: (raw ++ chNul :: rest) := by
    have h : (c :: first) ++ chNul :: (second ++ chNul :: (raw ++ chNul :: rest)) =
        ((c :: first) ++ [chNul]) ++ (second ++ chNul :: (raw ++ chNul :: rest)) := by
      simp
    have hlen : done.length + (c :: first).length + 1 =
        (done ++ ((c :: first) ++ [chNul])).length := by
      simp [Nat.add_assoc]
    rw [hm, h, ← List.append_assoc, hlen, List.drop_left]
  have hlen : done.length + ((c :: first) ++ chDot :: second).length + 1 = pre.length := by
    simp [pre]
    omega
  simp only [catreadLine, hdrop, if_neg (not_not.2 hc), hindex₁, hset₁, List.drop_left, hindex₂,
    hset₂, hdrop₁, hdrop₂, strEnd_append_nul hfirst, strEnd_append_nul hsecond, hkey1, hkey2, hlen]
  cases processEscChars m pre.length with
  | none => rfl
  | some m => rfl

/-- What `catreadLine` makes of a line with or without an entry: `seg` is what is left of the line
and its terminator. -/
def TakesLine (k : Kitten) (done seg rest : List (BitVec 8)) (i : ℕ) : Option Entry → Prop
  | none => catreadLine k done.length i = .ok ({ k with catcontents := done ++ (seg ++ rest) }, i)
  | some e =>
      if i < 128 then ∃ p, Points (done ++ seg) p e ∧ catreadLine k done.length i =
        .ok ({ k with
          catcontents := done ++ (seg ++ rest)
          catpoints := k.catpoints.set i p }, i + 1)
      else catreadLine k done.length i = .error .catpoints

/-- A line of fields. -/
theorem takesLine_fields {k : Kitten} {done first second raw rest : List (BitVec 8)} {i : ℕ}
    {c : BitVec 8}
    (hk : k.catcontents =
      done ++ ((c :: first) ++ chDot :: (second ++ chColon :: (raw ++ chNul :: rest))))
    (hfirst : chNul ∉ c :: first) (hsecond : chNul ∉ second) (hraw : chNul ∉ raw)
    (hcolon : chColon ∉ (c :: first) ++ chDot :: second) (hdot : chDot ∉ c :: first)
    (hc : 0x30 ≤ c ∧ c ≤ 0x39) {o : Option Entry}
    (ho : o = (keyOf (c :: first)).bind fun key1 => (keyOf second).map fun key2 =>
      ⟨key1, key2, raw⟩) (hclosed : ∀ e ∈ o, Closed e.raw) :
    ∃ seg, seg.length = (((c :: first) ++ chDot :: second) ++ chColon :: raw).length + 1 ∧
      seg.getLast? = some chNul ∧ TakesLine k done seg rest i o := by
  obtain ⟨key1, hkey1, hkeyOf1⟩ := keyOf_eq (c :: first)
  obtain ⟨key2, hkey2, hkeyOf2⟩ := keyOf_eq second
  have hline := catreadLine_fields (i := i) hk hfirst hsecond hcolon hdot hc hkey1 hkey2
  -- the keys with their terminators
  obtain ⟨keys, hkeys⟩ : ∃ keys, keys = (c :: first) ++ chNul :: (second ++ [chNul]) := ⟨_, rfl⟩
  rw [← hkeys] at hline
  dsimp only at hline
  have hlen : (((c :: first) ++ chDot :: second) ++ chColon :: raw).length + 1 =
      keys.length + raw.length + 1 := by
    simp [hkeys]
    omega
  rw [hlen]
  rw [hkeyOf1, hkeyOf2] at ho
  by_cases hsign : 0 ≤ key1.toInt ∧ 0 ≤ key2.toInt
  · rw [if_pos hsign] at hline
    rw [if_pos hsign.1, if_pos hsign.2, Option.bind_some, Option.map_some] at ho
    obtain ⟨t, ht⟩ : Closed raw := hclosed _ ho
    rw [ho]
    obtain ⟨gap, hgap, hlast, hrun⟩ := processEscChars_spelt ht hraw (done ++ keys) rest
    refine ⟨keys ++ (t ++ chNul :: gap), ?_, ?_, ?_⟩
    · simp
      omega
    · rw [List.getLast?_append, hlast]
      rfl
    · rw [hrun, Option.elim_some] at hline
      rw [TakesLine]
      split_ifs at hline ⊢ with hi
      · refine ⟨⟨key1.setWidth 8, key2.setWidth 8, some (done ++ keys).length⟩,
          ⟨rfl, rfl, done ++ keys, t, gap, by simp, rfl, (message_eq ht hraw).symm⟩, ?_⟩
        rw [hline]
        simp
      · exact hline
  · rw [if_neg hsign] at hline
    have hnone : o = none := by
      rw [ho]
      by_cases h₁ : 0 ≤ key1.toInt
      · rw [if_neg fun h₂ => hsign ⟨h₁, h₂⟩, if_pos h₁]
        rfl
      · rw [if_neg h₁]
        rfl
    rw [hnone]
    refine ⟨keys ++ (raw ++ [chNul]), by simp [Nat.add_assoc], by simp, ?_⟩
    rw [TakesLine, hline]
    simp

theorem digit_ne {c : BitVec 8} (hc : 0x30 ≤ c ∧ c ≤ 0x39) : c ≠ chColon ∧ c ≠ chDot := by
  revert c
  decide

/-- The entry of a line with a colon. -/
theorem parseLine_colon {c : BitVec 8} {front : List (BitVec 8)} (hc : 0x30 ≤ c ∧ c ≤ 0x39)
    (hcolon : chColon ∉ c :: front) (raw : List (BitVec 8)) :
    parseLine ((c :: front) ++ chColon :: raw) =
      (Lines.cut chDot (c :: front)).bind fun (first, second) =>
        (keyOf first).bind fun key1 => (keyOf second).map fun key2 => ⟨key1, key2, raw⟩ := by
  have hcut : Lines.cut chColon (c :: (front ++ chColon :: raw)) = some (c :: front, raw) :=
    Lines.cut_eq_some_iff.2 ⟨rfl, hcolon⟩
  rw [List.cons_append, parseLine, if_neg (not_not.2 hc), hcut, Option.bind_some]

/-- A line with a colon. -/
theorem takesLine_colon {k : Kitten} {done front raw rest : List (BitVec 8)} {i : ℕ} {c : BitVec 8}
    (hk : k.catcontents = done ++ ((c :: front) ++ chColon :: (raw ++ chNul :: rest)))
    (hfront : chNul ∉ c :: front) (hraw : chNul ∉ raw) (hcolon : chColon ∉ c :: front)
    (hc : 0x30 ≤ c ∧ c ≤ 0x39)
    (hclosed : ∀ e ∈ parseLine ((c :: front) ++ chColon :: raw),
      Closed e.raw) :
    ∃ seg, seg.length = ((c :: front) ++ chColon :: raw).length + 1 ∧
      seg.getLast? = some chNul ∧
      TakesLine k done seg rest i (parseLine ((c :: front) ++ chColon :: raw)) := by
  have hentry := parseLine_colon hc hcolon raw
  cases hcut : Lines.cut chDot (c :: front) with
  | none =>
      have hdrop : k.catcontents.drop done.length =
          c :: (front ++ chColon :: (raw ++ chNul :: rest)) := by
        rw [hk, List.drop_left]
        rfl
      have hindex₁ : strchr (c :: (front ++ chColon :: (raw ++ chNul :: rest))) chColon =
          some (some (c :: front).length) :=
        index_of_first hfront hcolon (raw ++ chNul :: rest)
      have hset : k.catcontents.set (done.length + (c :: front).length) chNul =
          done ++ ((c :: front) ++ chNul :: (raw ++ chNul :: rest)) := by
        rw [hk]
        simp
      have hindex₂ : strchr ((c :: front) ++ chNul :: (raw ++ chNul :: rest)) chDot = some none :=
        index_of_notMem hfront (Lines.cut_eq_none_iff.1 hcut) (by decide) _
      rw [hentry, hcut]
      refine ⟨((c :: front) ++ chNul :: raw) ++ [chNul], by simp [Nat.add_assoc],
        List.getLast?_concat, ?_⟩
      simp only [TakesLine, Option.bind_none, catreadLine, hdrop, if_neg (not_not.2 hc), hindex₁,
        hset, List.drop_left, hindex₂]
      simp
  | some fields =>
      obtain ⟨first, second⟩ := fields
      obtain ⟨heq, hdot⟩ := Lines.cut_eq_some_iff.1 hcut
      cases first with
      | nil => exact absurd (List.cons.inj heq).1 (digit_ne hc).2
      | cons c' first =>
          obtain rfl : c = c' := (List.cons.inj heq).1
          rw [hcut, Option.bind_some] at hentry
          rw [heq] at hfront hcolon
          have hk' : k.catcontents =
              done ++ ((c :: first) ++ chDot :: (second ++ chColon :: (raw ++ chNul :: rest))) := by
            rw [hk, heq]
            simp
          have htake := takesLine_fields (i := i) hk' (fun h => hfront (List.mem_append_left _ h))
            (fun h => hfront (List.mem_append_right _ (List.mem_cons_of_mem _ h))) hraw hcolon
            hdot hc hentry hclosed
          rwa [← heq] at htake

/-- **A line is taken**: its entry becomes an entry of the table, and the cells of the line and its
terminator are all that changes. -/
theorem catreadLine_spec {k : Kitten} {done l rest : List (BitVec 8)} {i : ℕ}
    (hk : k.catcontents = done ++ (l ++ chNul :: rest)) (hl : chNul ∉ l)
    (hclosed : ∀ e ∈ parseLine l, Closed e.raw) :
    ∃ seg, seg.length = l.length + 1 ∧ seg.getLast? = some chNul ∧
      TakesLine k done seg rest i (parseLine l) := by
  have hdrop : k.catcontents.drop done.length = l ++ chNul :: rest := by
    rw [hk, List.drop_left]
  -- where nothing is changed
  have hsame (h : catreadLine k done.length i = .ok (k, i)) :
      TakesLine k done (l ++ [chNul]) rest i none := by
    have hcontents : done ++ ((l ++ [chNul]) ++ rest) = k.catcontents := by
      rw [hk]
      simp
    rw [TakesLine, hcontents]
    exact h
  cases l with
  | nil =>
      refine ⟨[chNul], rfl, rfl, hsame ?_⟩
      simp only [catreadLine, hdrop]
      rfl
  | cons c l =>
      rw [List.cons_append] at hdrop
      by_cases hc : 0x30 ≤ c ∧ c ≤ 0x39
      · cases hcut : Lines.cut chColon (c :: l) with
        | none =>
            have hnone : parseLine (c :: l) = none := by
              rw [parseLine, if_neg (not_not.2 hc), hcut]
              rfl
            have hindex : strchr (c :: (l ++ chNul :: rest)) chColon = some none :=
              index_of_notMem hl (Lines.cut_eq_none_iff.1 hcut) (by decide) rest
            rw [hnone]
            refine ⟨(c :: l) ++ [chNul], by simp, List.getLast?_concat, hsame ?_⟩
            simp only [catreadLine, hdrop, if_neg (not_not.2 hc), hindex]
        | some fields =>
            obtain ⟨front, raw⟩ := fields
            obtain ⟨heq, hcolon⟩ := Lines.cut_eq_some_iff.1 hcut
            cases front with
            | nil => exact absurd (List.cons.inj heq).1 (digit_ne hc).1
            | cons c' front =>
                obtain rfl : c = c' := (List.cons.inj heq).1
                rw [heq] at hl hclosed ⊢
                refine takesLine_colon ?_ (fun h => hl (List.mem_append_left _ h))
                  (fun h => hl (List.mem_append_right _ (List.mem_cons_of_mem _ h))) hcolon hc
                  hclosed
                rw [hk, heq, List.append_assoc]
                rfl
      · have hnone : parseLine (c :: l) = none := by
          rw [parseLine, if_pos hc]
        rw [hnone]
        refine ⟨(c :: l) ++ [chNul], by simp, List.getLast?_concat, hsame ?_⟩
        simp only [catreadLine, hdrop, if_pos hc]

/-! ### The lines -/

/-- A table whose first entries point to the messages of `es` in `m`; the others are unused. -/
def Table (m : List (BitVec 8)) (catpoints : List CatString) (es : List Entry) : Prop :=
  ∃ ps qs, catpoints = ps ++ qs ∧ List.Forall₂ (Points m) ps es ∧ (∀ q ∈ qs, q.text = none) ∧
    catpoints.length = 128

theorem Table.append {m : List (BitVec 8)} {catpoints : List CatString} {es : List Entry}
    (h : Table m catpoints es) (m' : List (BitVec 8)) : Table (m ++ m') catpoints es := by
  obtain ⟨ps, qs, heq, hps, hqs, hlen⟩ := h
  exact ⟨ps, qs, heq, hps.imp fun _ _ hp => hp.append m', hqs, hlen⟩

/-- The next entry. -/
theorem Table.push {m : List (BitVec 8)} {catpoints : List CatString} {es : List Entry}
    (h : Table m catpoints es) (hroom : es.length < 128) {p : CatString} {e : Entry}
    (hp : Points m p e) : Table m (catpoints.set es.length p) (es ++ [e]) := by
  obtain ⟨ps, qs, rfl, hps, hqs, hlen⟩ := h
  have hlength : ps.length = es.length := hps.length_eq
  cases qs with
  | nil =>
      rw [List.append_nil] at hlen
      omega
  | cons q qs =>
      refine ⟨ps ++ [p], qs, ?_, ?_, fun q hq => hqs q (List.mem_cons_of_mem _ hq), ?_⟩
      · rw [← hlength]
        simp
      · exact List.rel_append hps (List.Forall₂.cons hp List.Forall₂.nil)
      · rw [List.length_set, hlen]

theorem Table.length_le {m : List (BitVec 8)} {catpoints : List CatString} {es : List Entry}
    (h : Table m catpoints es) : es.length ≤ 128 := by
  obtain ⟨ps, qs, rfl, hps, -, hlen⟩ := h
  rw [List.length_append, hps.length_eq] at hlen
  omega

/-- A round of the loop: the line is cut off and taken. -/
theorem catreadLoop_line (fuel i : ℕ) {k : Kitten} {done line rest : List (BitVec 8)}
    (hk : k.catcontents = done ++ (line ++ chLf :: rest)) (hlf : chLf ∉ line) (hnul : chNul ∉ line)
    (hne : done ++ line ≠ []) (hcr : done.getLast? ≠ some chCr)
    (hclosed : ∀ e ∈ entryOf line, Closed e.raw) :
    ∃ seg, (done ++ seg).getLast? = some chNul ∧
      match entryOf line with
      | none => catreadLoop (fuel + 1) k done.length i =
          catreadLoop fuel { k with catcontents := (done ++ seg) ++ rest } (done ++ seg).length i
      | some e =>
          if i < 128 then
            ∃ p, Points (done ++ seg) p e ∧ catreadLoop (fuel + 1) k done.length i =
              catreadLoop fuel { k with
                catcontents := (done ++ seg) ++ rest
                catpoints := k.catpoints.set i p } (done ++ seg).length (i + 1)
          else catreadLoop (fuel + 1) k done.length i = .error .catpoints := by
  have hfind : strchr (line ++ chLf :: rest) chLf = some (some line.length) :=
    index_of_first hnul hlf _
  obtain ⟨k₁, hk₁⟩ : ∃ k₁ : Kitten, k₁ = { k with
    catcontents := done ++ (dropCr line ++ chNul :: (crPad line ++ rest)) } := ⟨_, rfl⟩
  have hround : catreadLoop (fuel + 1) k done.length i =
      (catreadLine k₁ done.length i).bind fun r =>
        catreadLoop fuel r.1 (done.length + line.length + 1) r.2 := by
    simp only [catreadLoop, hk, List.drop_left, hfind, cutLine_eq hne hcr, hk₁]
    rfl
  obtain ⟨seg, hseg, hlast, htake⟩ := catreadLine_spec (i := i) (k := k₁) (by rw [hk₁])
    (fun h => hnul (mem_of_mem_dropCr h)) hclosed
  have hlength : done.length + line.length + 1 = (done ++ (seg ++ crPad line)).length := by
    have := length_dropCr line
    simp
    omega
  have hcontents : done ++ (seg ++ (crPad line ++ rest)) =
      (done ++ (seg ++ crPad line)) ++ rest := by
    simp
  rw [hlength] at hround
  refine ⟨seg ++ crPad line, ?_, ?_⟩
  · rw [List.getLast?_append, List.getLast?_append, hlast, crPad]
    split_ifs
    · rfl
    · rfl
  · rw [entryOf]
    cases hparse : parseLine (dropCr line) with
    | none =>
        rw [hparse, TakesLine, hcontents] at htake
        rw [hround, htake, hk₁]
        rfl
    | some e =>
        rw [hparse, TakesLine, hcontents] at htake
        dsimp only
        split_ifs at htake ⊢ with hi
        · obtain ⟨p, hp, htake⟩ := htake
          have hp' : Points (done ++ (seg ++ crPad line)) p e := by
            rw [← List.append_assoc]
            exact hp.append _
          refine ⟨p, hp', ?_⟩
          rw [hround, htake, hk₁]
          rfl
        · rw [hround, htake]
          rfl

/-- **The loop takes the lines one by one** and ends where there is no line end any more, or at the
first entry that the table has no room for. -/
theorem catreadLoop_spec {tail : List (BitVec 8)} (htail : strchr tail chLf = some none) :
    ∀ (lines : List (List (BitVec 8))) {k : Kitten} {done : List (BitVec 8)} {es : List Entry}
    {fuel : ℕ}, k.catcontents = done ++ (Lines.join chLf lines ++ tail) →
    (∀ line ∈ lines, chLf ∉ line ∧ chNul ∉ line) → (∀ line ∈ lines.head?, done ++ line ≠ []) →
    done.getLast? ≠ some chCr → Table done k.catpoints es →
    (∀ e ∈ lines.filterMap entryOf, Closed e.raw) → lines.length < fuel →
    if es.length + (lines.filterMap entryOf).length ≤ 128 then
      ∃ catcontents catpoints, catreadLoop fuel k done.length es.length =
        .ok { k with catcontents, catpoints } ∧
          Table catcontents catpoints (es ++ lines.filterMap entryOf)
    else catreadLoop fuel k done.length es.length = .error .catpoints := by
  intro lines
  induction lines with
  | nil =>
      intro k done es fuel hk _ _ _ htable _ hfuel
      cases fuel with
      | zero => cases hfuel
      | succ fuel =>
          rw [Lines.join_nil, List.nil_append] at hk
          have hloop : catreadLoop (fuel + 1) k done.length es.length = .ok k := by
            simp only [catreadLoop, hk, List.drop_left, htail]
          have hlen : es.length + ([] : List Entry).length ≤ 128 := htable.length_le
          rw [List.filterMap_nil, List.append_nil, if_pos hlen]
          exact ⟨_, _, hloop, hk ▸ htable.append tail⟩
  | cons line lines ih =>
      intro k done es fuel hk hlines hne hcr htable hclosed hfuel
      cases fuel with
      | zero => cases hfuel
      | succ fuel =>
          obtain ⟨hlf, hnul⟩ := hlines line (List.mem_cons_self ..)
          rw [Lines.join_cons, List.append_assoc, List.cons_append] at hk
          obtain ⟨seg, hlast, hround⟩ := catreadLoop_line fuel es.length hk hlf hnul
            (hne line rfl) hcr
            fun e he => hclosed e (List.mem_filterMap.2 ⟨line, List.mem_cons_self .., he⟩)
          -- what the other lines need
          have hlines' : ∀ line ∈ lines, chLf ∉ line ∧ chNul ∉ line :=
            fun l hl => hlines l (List.mem_cons_of_mem _ hl)
          have hne' : ∀ line ∈ lines.head?, (done ++ seg) ++ line ≠ [] := by
            intro l _ h
            rw [(List.append_eq_nil_iff.1 h).1] at hlast
            cases hlast
          have hcr' : (done ++ seg).getLast? ≠ some chCr := by
            rw [hlast]
            decide
          rw [List.length_cons, Nat.add_lt_add_iff_right] at hfuel
          cases hentry : entryOf line with
          | none =>
              rw [hentry] at hround
              rw [List.filterMap_cons_none hentry] at hclosed ⊢
              rw [hround]
              exact ih rfl hlines' hne' hcr' (htable.append seg) hclosed hfuel
          | some e =>
              rw [hentry] at hround
              rw [List.filterMap_cons_some hentry] at hclosed ⊢
              dsimp only at hround
              by_cases hroom : es.length < 128
              · rw [if_pos hroom] at hround
                obtain ⟨p, hp, hround⟩ := hround
                have hrest := ih (k := { k with
                  catcontents := (done ++ seg) ++ (Lines.join chLf lines ++ tail)
                  catpoints := k.catpoints.set es.length p }) rfl hlines' hne' hcr'
                  ((htable.append seg).push hroom hp)
                  (fun e he => hclosed e (List.mem_cons_of_mem _ he)) hfuel
                have hlen : es.length + (e :: lines.filterMap entryOf).length =
                    (es ++ [e]).length + (lines.filterMap entryOf).length := by
                  simp
                  omega
                have happ : (es ++ [e]) ++ lines.filterMap entryOf =
                    es ++ e :: lines.filterMap entryOf := by
                  simp
                have hsucc : es.length + 1 = (es ++ [e]).length := by
                  simp
                rw [happ] at hrest
                rw [hround, hlen, hsucc]
                exact hrest
              · rw [if_neg hroom] at hround
                rw [if_neg (by rw [List.length_cons]; omega)]
                exact hround

/-! ### Looking up a message -/

/-- What an entry of the table points to is read from memory. -/
theorem Points.text_eq {m : List (BitVec 8)} {p : CatString} {e : Entry} (h : Points m p e) :
    ∃ o, p.text = some o ∧ text chNul (m.drop o) = message e.raw := by
  obtain ⟨-, -, a, t, b, rfl, htext, hmsg⟩ := h
  refine ⟨a.length, htext, ?_⟩
  rw [List.drop_left, text_append_nul, hmsg]

/-- The loop over the entries that are not used: it stops at the first one. -/
theorem kittengetsLoop_unused (setnum msgnum : BitVec 16) {q : CatString} {qs : List CatString}
    {i : ℕ} (hq : q.text = none) : kittengetsLoop setnum msgnum (q :: qs) i = some none := by
  simp [kittengetsLoop, hq]

/-- The loop over the entries of the table. -/
theorem kittengetsLoop_eq (setnum msgnum : BitVec 16) {m : List (BitVec 8)} {qs : List CatString}
    {ps : List CatString} {es : List Entry} (hps : List.Forall₂ (Points m) ps es) :
    ∀ {i : ℕ}, i + ps.length ≤ 128 →
    (kittengetsLoop setnum msgnum (ps ++ qs) i).map
        (fun r => r.map fun o => text chNul (m.drop o)) =
      match lookup es setnum msgnum with
      | some msg => some (some msg)
      | none => (kittengetsLoop setnum msgnum qs (i + ps.length)).map
          fun r => r.map fun o => text chNul (m.drop o) := by
  induction hps with
  | nil => intro i _; rfl
  | @cons p e ps es hp hps ih =>
      intro i hi
      rw [List.length_cons] at hi
      obtain ⟨o, htext, hmsg⟩ := hp.text_eq
      obtain ⟨hkey1, hkey2, -⟩ := hp
      by_cases hkeys : e.key1.setWidth 16 = setnum ∧ e.key2.setWidth 16 = msgnum
      · have hfind : lookup (e :: es) setnum msgnum = some (message e.raw) := by
          simp [lookup, hkeys]
        have hmatch : ¬ (p.key1.setWidth 16 ≠ setnum ∨ p.key2.setWidth 16 ≠ msgnum) := by
          rw [hkey1, hkey2]
          tauto
        rw [List.cons_append, kittengetsLoop, if_neg hmatch, hfind, htext, Option.map_some,
          Option.map_some, hmsg]
      · have hfind : lookup (e :: es) setnum msgnum = lookup es setnum msgnum := by
          simp [lookup, hkeys]
        have hmatch : p.key1.setWidth 16 ≠ setnum ∨ p.key2.setWidth 16 ≠ msgnum := by
          rw [hkey1, hkey2]
          tauto
        have hgo : ¬ (p.text = none ∨ 127 < i) := by
          rw [htext]
          simp
          omega
        have hindex : i + (ps.length + 1) = i + 1 + ps.length := by omega
        rw [List.cons_append, kittengetsLoop, if_pos hmatch, if_neg hgo, hfind, ih (by omega),
          List.length_cons, hindex]

/-- **Looking up a message in a table**: the first entry with the keys has it.  Without one the
caller's own message is returned, unless the table is full: then the entry behind it is read. -/
theorem kittengets_eq {k : Kitten} {es : List Entry} (h : Table k.catcontents k.catpoints es)
    (setnum msgnum : BitVec 16) (msg : List (BitVec 8)) :
    kittengets k setnum msgnum msg =
      match lookup es setnum msgnum with
      | some msg => some msg
      | none => if es.length < 128 then some msg else none := by
  obtain ⟨ps, qs, heq, hps, hqs, hlen⟩ := h
  rw [heq, List.length_append, hps.length_eq] at hlen
  have hfold : kittengets k setnum msgnum msg =
      ((kittengetsLoop setnum msgnum k.catpoints 0).map fun r =>
        r.map fun o => text chNul (k.catcontents.drop o)).map fun r => r.getD msg := by
    rw [kittengets]
    rcases kittengetsLoop setnum msgnum k.catpoints 0 with _ | _ | o
    · rfl
    · rfl
    · rfl
  rw [hfold, heq, kittengetsLoop_eq setnum msgnum hps (by rw [hps.length_eq]; omega)]
  cases lookup es setnum msgnum with
  | some msg => rfl
  | none =>
      cases qs with
      | nil =>
          rw [List.length_nil] at hlen
          rw [if_neg (by omega)]
          rfl
      | cons q qs =>
          rw [List.length_cons] at hlen
          rw [if_pos (by omega)]
          simp only [kittengetsLoop_unused setnum msgnum (hqs q (List.mem_cons_self ..))]
          rfl

/-! ### A whole catalogue -/

/-- Behind the text of a file that has been read there is a terminator. -/
theorem exists_behind (bs : List (BitVec 8)) (n : ℕ) :
    ∃ rest, bs ++ List.replicate (n + 1) chNul = text chNul bs ++ chNul :: rest := by
  induction bs with
  | nil => exact ⟨List.replicate n chNul, rfl⟩
  | cons b bs ih =>
      by_cases hb : b = chNul
      · exact ⟨bs ++ List.replicate (n + 1) chNul, by simp [text, hb]⟩
      · obtain ⟨rest, hrest⟩ := ih
        exact ⟨rest, by simp [text, hb, hrest]⟩

/-- **The table that a file leaves behind**, or the first entry that there is no room for. -/
theorem parseCatalog_spec {k : Kitten} (hpoints : k.catpoints.length = 128)
    (hunused : ∀ p ∈ k.catpoints, p.text = none) {bs : List (BitVec 8)} (hlen : bs.length < 8191)
    (hhead : bs.head? ≠ some chLf)
    (hclosed : ∀ e ∈ entriesOf bs, Closed e.raw) :
    if (entriesOf bs).length ≤ 128 then
      ∃ catcontents catpoints, parseCatalog k bs = .ok { k with catcontents, catpoints } ∧
        Table catcontents catpoints (entriesOf bs)
    else parseCatalog k bs = .error .catpoints := by
  obtain ⟨tail, htext, htail, hlf⟩ := Lines.exists_tail chLf (text chNul bs)
  have hnul : chNul ∉ text chNul bs := nul_notMem_text bs
  rw [htext, List.mem_append, not_or] at hnul
  obtain ⟨rest, hrest⟩ := exists_behind bs (8191 - bs.length)
  have hzeros : 8192 - bs.length = 8191 - bs.length + 1 := by omega
  have hcontents : bs ++ List.replicate (8192 - bs.length) 0 =
      [] ++ (Lines.join chLf (Lines.linesOf chLf (text chNul bs)) ++ (tail ++ chNul :: rest)) := by
    rw [hzeros, List.nil_append, ← List.append_assoc, ← htext]
    exact hrest
  have hlines : ∀ line ∈ Lines.linesOf chLf (text chNul bs), chLf ∉ line ∧ chNul ∉ line := by
    refine fun line hline => ⟨hlf line hline, fun h => hnul.1 ?_⟩
    exact List.mem_flatMap.2 ⟨line, hline, List.mem_append_left _ h⟩
  -- the first line is not empty
  have hne : ∀ line ∈ (Lines.linesOf chLf (text chNul bs)).head?, [] ++ line ≠ [] := by
    rintro line hline rfl
    cases bs with
    | nil => simp [text, Lines.linesOf] at hline
    | cons b bs =>
        have hb : b ≠ chLf := fun h => hhead (by rw [h]; rfl)
        by_cases hb' : b = chNul
        · simp [text, hb', Lines.linesOf] at hline
        · rw [text, if_neg hb', Lines.linesOf, if_neg hb] at hline
          cases hl : Lines.linesOf chLf (text chNul bs) with
          | nil => simp [hl] at hline
          | cons line lines => simp [hl] at hline
  have hfuel : (Lines.linesOf chLf (text chNul bs)).length < 8192 := by
    have h := Lines.length_join_ge chLf (Lines.linesOf chLf (text chNul bs))
    have h' := congrArg List.length hcontents
    simp only [List.nil_append, List.length_append, List.length_cons, List.length_replicate] at h'
    omega
  have htable : Table [] k.catpoints [] := ⟨[], k.catpoints, rfl, .nil, hunused, hpoints⟩
  have hloop := catreadLoop_spec (index_of_notMem hnul.2 htail (by decide) rest) _
    (k := { k with catcontents := bs ++ List.replicate (8192 - bs.length) 0 }) hcontents hlines hne
    (by simp) htable hclosed hfuel
  simp only [List.length_nil, Nat.zero_add, List.nil_append] at hloop
  exact hloop

/-- A file that is read without leaving an array, with a place of the table left free. -/
structure Good (bs : List (BitVec 8)) : Prop where
  head : bs.head? ≠ some chLf
  closed : ∀ e ∈ entriesOf bs, Closed e.raw
  count : (entriesOf bs).length < 128

/-- The lookups see these entries. -/
structure Shows (k : Kitten) (es : List Entry) : Prop where
  table : Table k.catcontents k.catpoints es
  count : es.length < 128

theorem Shows.kittengets_eq {k : Kitten} {es : List Entry} (h : Shows k es)
    (setnum msgnum : BitVec 16) (msg : List (BitVec 8)) :
    kittengets k setnum msgnum msg = some ((lookup es setnum msgnum).getD msg) := by
  rw [Vbsmount.kittengets_eq h.table]
  cases lookup es setnum msgnum with
  | none => simp [h.count]
  | some msg => rfl

/-- No entry of the table is used. -/
def Unused (k : Kitten) : Prop := k.catpoints.length = 128 ∧ ∀ p ∈ k.catpoints, p.text = none

theorem Unused.shows {k : Kitten} (h : Unused k) : Shows k [] :=
  ⟨⟨[], k.catpoints, rfl, .nil, h.2, h.1⟩, Nat.zero_lt_succ _⟩

theorem unused_clear {k : Kitten} (h : k.catpoints.length = 128) : Unused k.clear :=
  ⟨by simp [Kitten.clear, h], by simp [Kitten.clear]⟩

theorem Shows.length {k : Kitten} {es : List Entry} (h : Shows k es) :
    k.catpoints.length = 128 := by
  obtain ⟨-, -, -, -, -, hlen⟩ := h.table
  exact hlen

/-- A file is read into an unused table without leaving an array, and the lookups see its entries.
-/
theorem shows_parseCatalog {k : Kitten} (hk : Unused k) {bs : List (BitVec 8)}
    (hlen : bs.length < 8191) (hgood : Good bs) :
    ∃ k', parseCatalog k bs = .ok k' ∧ Shows k' (entriesOf bs) := by
  have hspec := parseCatalog_spec hk.1 hk.2 hlen hgood.head hgood.closed
  rw [if_pos hgood.count.le] at hspec
  obtain ⟨catcontents, catpoints, hparse, htable⟩ := hspec
  exact ⟨_, hparse, htable, hgood.count⟩

/-- **The lookup in the table is the lookup in the text.**  A file that does not start with an empty
line, whose messages are spellings and whose entries leave one place of the table free is read
without leaving an array, and after that every lookup returns the message of the first entry with
the keys, or else the caller's own message. -/
theorem kittengets_parseCatalog {k : Kitten} (hpoints : k.catpoints.length = 128)
    {bs : List (BitVec 8)} (hlen : bs.length < 8191) (hhead : bs.head? ≠ some chLf)
    (hclosed : ∀ e ∈ entriesOf bs, Closed e.raw) (hcount : (entriesOf bs).length < 128) :
    ∃ k', parseCatalog k.clear bs = .ok k' ∧ ∀ setnum msgnum msg,
      kittengets k' setnum msgnum msg =
        some ((lookup (entriesOf bs) setnum msgnum).getD msg) := by
  obtain ⟨k', hparse, hshows⟩ :=
    shows_parseCatalog (unused_clear hpoints) hlen ⟨hhead, hclosed, hcount⟩
  exact ⟨k', hparse, hshows.kittengets_eq⟩

/-- A catalogue with a comment, a key that comes twice, an escape in a message and a line without
a full stop. -/
def sampleCatalog : List (BitVec 8) := ascii "# es\n1.2:uno\\n\n3.7:dos\n1.2:tres\n4:cinco\n"

theorem kittengets_parseCatalog_sample :
    entriesOf sampleCatalog =
        [⟨1, 2, ascii "uno\\n"⟩, ⟨3, 7, ascii "dos"⟩, ⟨1, 2, ascii "tres"⟩] ∧
      ∃ k', parseCatalog Kitten.start.clear sampleCatalog = .ok k' ∧ ∀ setnum msgnum msg,
        kittengets k' setnum msgnum msg =
          some ((lookup (entriesOf sampleCatalog) setnum msgnum).getD msg) := by
  have hentries : entriesOf sampleCatalog =
      [⟨1, 2, ascii "uno\\n"⟩, ⟨3, 7, ascii "dos"⟩, ⟨1, 2, ascii "tres"⟩] := by
    decide
  have hlast : ∀ e ∈ entriesOf sampleCatalog, e.raw.getLast? ≠ some chBackslash := by decide
  exact ⟨hentries, kittengets_parseCatalog List.length_replicate (by decide) (by decide)
    (fun e he => closed_of_getLast? (hlast e he)) (by decide)⟩

/-- The first of the two messages is found, with the escape replaced. -/
example : lookup (entriesOf sampleCatalog) 1 2 = some (ascii "uno" ++ [chLf]) := by decide

end Vbsmount

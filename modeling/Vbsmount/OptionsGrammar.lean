/-
**The grammar of the command line.**

A command tail is a line of tokens: blanks, and switches, each led by a slash or a hyphen.  A line
may set the verbosity once.  The scanner of the source takes the tokens one by one, with a look at
the character behind a `/Q`, and stops at the terminator, at a switch that asks for help, or at the
first thing it does not accept.

Main definitions:

* `Token`, `Spells`, `Line` — the tokens, how each is spelt, and lines of them;
* `verbosities`, `Token.apply` — the switches of a line that set the verbosity, and what a token
  does to the statics;
* `WellFormed` — a line that sets the verbosity at most once;
* `Stops` — why the scanner stops.

Main results:

* `getOptionsLoop_token`, `getOptionsLoop_line` — the scanner takes a token, and a line;
* `getOptionsLoop_explained` — whatever it has taken when it stops was a line;
* `getOptions_grammar` — **the scanner accepts exactly the grammar**.
-/

import Vbsmount.Options

set_option relaxedAutoImplicit false
set_option autoImplicit false

namespace Vbsmount

open CString

/-! ### Tokens -/

/-- What a command tail is made of. -/
inductive Token
  | blank
  | quiet
  | silent
  | verbose
  | uninstall
  | testOnly
  deriving DecidableEq

/-- A blank or a tabulator. -/
def IsBlank (c : BitVec 8) : Prop := c = 0x20 ∨ c = 0x09

/-- `'/'` or `'-'`. -/
def IsLead (c : BitVec 8) : Prop := c = 0x2F ∨ c = 0x2D

/-- The capital letter or its small form. -/
def IsLetter (letter c : BitVec 8) : Prop := c = letter ∨ c = letter + 0x20

/-- The letter of a help switch: `H` or `?`. -/
def IsHelp (c : BitVec 8) : Prop := IsLetter 0x48 c ∨ c = 0x3F

/-- How a token is spelt. -/
inductive Spells : Token → List (BitVec 8) → Prop
  | blank {c : BitVec 8} (hc : IsBlank c) : Spells .blank [c]
  | quiet {l q : BitVec 8} (hl : IsLead l) (hq : IsLetter 0x51 q) : Spells .quiet [l, q]
  | silent {l q q' : BitVec 8} (hl : IsLead l) (hq : IsLetter 0x51 q) (hq' : IsLetter 0x51 q') :
      Spells .silent [l, q, q']
  | verbose {l v : BitVec 8} (hl : IsLead l) (hv : IsLetter 0x56 v) : Spells .verbose [l, v]
  | uninstall {l u : BitVec 8} (hl : IsLead l) (hu : IsLetter 0x55 u) : Spells .uninstall [l, u]
  | testOnly {l t : BitVec 8} (hl : IsLead l) (ht : IsLetter 0x54 t) : Spells .testOnly [l, t]

/-- A line of tokens. -/
inductive Line : List Token → List (BitVec 8) → Prop
  | nil : Line [] []
  | cons {t : Token} {w : List (BitVec 8)} {ts : List Token} {s : List (BitVec 8)}
      (hw : Spells t w) (hs : Line ts s) : Line (t :: ts) (w ++ s)

/-- The verbosity that a token sets. -/
def Token.verbosity? : Token → Option Verbosity
  | .quiet => some .quiet
  | .silent => some .silent
  | .verbose => some .verbose
  | _ => none

/-- The verbosities that a line sets. -/
def verbosities (ts : List Token) : List Verbosity := ts.filterMap Token.verbosity?

/-- A line that sets the verbosity at most once. -/
def WellFormed (ts : List Token) (s : List (BitVec 8)) : Prop :=
  Line ts s ∧ (verbosities ts).length ≤ 1

/-- What a token does to the statics. -/
def Token.apply (o : Options) : Token → Options
  | .blank => o
  | .quiet => { o with verbosity := .quiet }
  | .silent => { o with verbosity := .silent }
  | .verbose => { o with verbosity := .verbose }
  | .uninstall => { o with uninstall := o.uninstall + 1 }
  | .testOnly => { o with testOnly := o.testOnly + 1 }

/-- What a line does to the statics. -/
def applyLine (ts : List Token) (o : Options) : Options := ts.foldl Token.apply o

/-! ### Letters -/

theorem toupper_eq_iff {letter : BitVec 8} (c : BitVec 8) (hle : 0x41 ≤ letter := by decide)
    (hge : letter ≤ 0x5A := by decide) : toupper c = letter ↔ IsLetter letter c := by
  unfold toupper IsLetter
  split_ifs with h
  · bv_omega
  · bv_omega

theorem IsLetter.ne_nul {letter c : BitVec 8} (hc : IsLetter letter c)
    (hne : letter ≠ chNul ∧ letter + 0x20 ≠ chNul := by decide) : c ≠ chNul := by
  rcases hc with rfl | rfl
  · exact hne.1
  · exact hne.2

theorem IsHelp.ne_nul {c : BitVec 8} (hc : IsHelp c) : c ≠ chNul := by
  rcases hc with hc | rfl
  · exact hc.ne_nul
  · simp [chNul]

theorem toupper_help_iff (c : BitVec 8) : toupper c = 0x48 ∨ toupper c = 0x3F ↔ IsHelp c := by
  have hmark : toupper c = 0x3F ↔ c = 0x3F := by
    unfold toupper
    split_ifs with h
    · bv_omega
    · exact Iff.rfl
  rw [IsHelp, toupper_eq_iff, hmark]

/-! ### The scanner takes a line -/

/-- The number of times a token sets the verbosity. -/
def Token.weight (t : Token) : ℕ := t.verbosity?.toList.length

theorem verbosities_cons (t : Token) (ts : List Token) :
    verbosities (t :: ts) = t.verbosity?.toList ++ verbosities ts := by
  cases ht : t.verbosity? with
  | none => simp [verbosities, ht]
  | some v => simp [verbosities, ht]

theorem length_verbosities_cons (t : Token) (ts : List Token) :
    (verbosities (t :: ts)).length = t.weight + (verbosities ts).length := by
  rw [verbosities_cons, List.length_append, Token.weight]

/-- What stands behind a `/Q` does not go on with another `Q`. -/
def NoSecondQ (l : List (BitVec 8)) : Prop := ∀ c ∈ l.head?, ¬ IsLetter 0x51 c

theorem IsBlank.ne {c : BitVec 8} (hc : IsBlank c) : c ≠ chNul ∧ ¬ IsLetter 0x51 c := by
  rcases hc with rfl | rfl
  · simp [chNul, IsLetter]
  · simp [chNul, IsLetter]

theorem IsLead.ne {c : BitVec 8} (hc : IsLead c) : c ≠ chNul ∧ ¬ IsLetter 0x51 c := by
  rcases hc with rfl | rfl
  · simp [chNul, IsLetter]
  · simp [chNul, IsLetter]

theorem getOptionsLoop_blank {c : BitVec 8} (hc : IsBlank c) (tail : List (BitVec 8)) (vset : ℕ)
    (o : Options) : getOptionsLoop (c :: tail) vset o = getOptionsLoop tail vset o := by
  rw [getOptionsLoop.eq_def]
  simp only [if_neg hc.ne.1]
  exact if_pos hc

/-- The two leads are the same to the scanner. -/
theorem getOptionsLoop_lead {l : BitVec 8} (hl : IsLead l) (tail : List (BitVec 8)) (vset : ℕ)
    (o : Options) : getOptionsLoop (l :: tail) vset o = getOptionsLoop (0x2F :: tail) vset o := by
  rcases hl with rfl | rfl
  · rfl
  · rw [getOptionsLoop.eq_def, getOptionsLoop.eq_def (0x2F :: tail)]
    simp [chNul]

/-- **The scanner takes a token**, if the verbosity is not set twice. -/
theorem getOptionsLoop_token {t : Token} {w l : List (BitVec 8)} {vset : ℕ} (hw : Spells t w)
    (hl : NoSecondQ l) (hvset : vset + t.weight ≤ 1) (o : Options) :
    getOptionsLoop (w ++ l) vset o = getOptionsLoop l (vset + t.weight) (t.apply o) := by
  -- a token that sets the verbosity finds it unset
  have hunset (ht : t.weight = 1) : vset = 0 := by omega
  cases hw with
  | blank hc => exact getOptionsLoop_blank hc l vset o
  | quiet hlead hq =>
      have hq := (toupper_eq_iff _).2 hq
      rw [hunset rfl, List.cons_append, getOptionsLoop_lead hlead, List.singleton_append]
      cases l with
      | nil => simp [getOptionsLoop, chNul, hq]
      | cons q l =>
          have hq' : toupper q ≠ 0x51#8 := fun h =>
            hl q rfl ((toupper_eq_iff q).1 h)
          simp [getOptionsLoop, chNul, hq, hq', Token.weight, Token.verbosity?, Token.apply]
  | silent hlead hq hq' =>
      have hq := (toupper_eq_iff _).2 hq
      have hq' := (toupper_eq_iff _).2 hq'
      rw [hunset rfl, List.cons_append, getOptionsLoop_lead hlead]
      simp [getOptionsLoop, chNul, hq, hq', Token.weight, Token.verbosity?, Token.apply]
  | verbose hlead hv =>
      have hv := (toupper_eq_iff _).2 hv
      rw [hunset rfl, List.cons_append, getOptionsLoop_lead hlead, getOptionsLoop.eq_def]
      simp [chNul, hv, Token.weight, Token.verbosity?, Token.apply]
  | uninstall hlead hu =>
      have hu := (toupper_eq_iff _).2 hu
      rw [List.cons_append, getOptionsLoop_lead hlead, getOptionsLoop.eq_def]
      simp [chNul, hu, Token.weight, Token.verbosity?, Token.apply]
  | testOnly hlead ht =>
      have ht := (toupper_eq_iff _).2 ht
      rw [List.cons_append, getOptionsLoop_lead hlead, getOptionsLoop.eq_def]
      simp [chNul, ht, Token.weight, Token.verbosity?, Token.apply]

/-- The scanner stops at a switch that asks for help. -/
theorem getOptionsLoop_help {lead help : BitVec 8} (hlead : IsLead lead) (hhelp : IsHelp help)
    (l : List (BitVec 8)) (vset : ℕ) (o : Options) :
    getOptionsLoop (lead :: help :: l) vset o = some (1, o) := by
  rw [getOptionsLoop_lead hlead, getOptionsLoop.eq_def]
  rcases (toupper_help_iff help).2 hhelp with hupper | hupper
  · simp [chNul, hupper]
  · simp [chNul, hupper]

/-- No token begins with a letter. -/
theorem Line.noSecondQ {ts : List Token} {s l : List (BitVec 8)} (hs : Line ts s)
    (hl : NoSecondQ l) : NoSecondQ (s ++ l) := by
  cases hs with
  | nil => exact hl
  | cons hw _ =>
      rintro c hc
      cases hw with
      | blank hblank =>
          obtain rfl := Option.some.inj hc
          exact hblank.ne.2
      | quiet hlead | silent hlead | verbose hlead | uninstall hlead | testOnly hlead =>
          obtain rfl := Option.some.inj hc
          exact hlead.ne.2

/-- **The scanner takes a line**, if the verbosity is not set twice. -/
theorem getOptionsLoop_line {ts : List Token} {s l : List (BitVec 8)} (hs : Line ts s)
    (hl : NoSecondQ l) : ∀ (vset : ℕ) (o : Options), vset + (verbosities ts).length ≤ 1 →
      getOptionsLoop (s ++ l) vset o =
        getOptionsLoop l (vset + (verbosities ts).length) (applyLine ts o) := by
  induction hs with
  | nil => intro vset o _; rfl
  | cons hw hs ih =>
      intro vset o hvset
      rw [length_verbosities_cons] at hvset ⊢
      rw [List.append_assoc, getOptionsLoop_token hw (hs.noSecondQ hl) (by omega),
        ih _ _ (by omega), Nat.add_assoc]
      rfl

/-! ### What the scanner has taken -/

/-- Why the scanner stops: at the terminator, at a switch that asks for help, or at something else
with value 2. -/
def Stops (v : BitVec 16) (l : List (BitVec 8)) : Prop :=
  (v = 0 ∧ ∃ rest, l = chNul :: rest) ∨
    (v = 1 ∧ ∃ lead help rest, l = lead :: help :: rest ∧ IsLead lead ∧ IsHelp help) ∨ v = 2

/-- The scanner has taken a line and stopped behind it. -/
def Explained (l : List (BitVec 8)) (vset : ℕ) (v : BitVec 16) : Prop :=
  ∃ ts s l', l = s ++ l' ∧ Line ts s ∧ vset + (verbosities ts).length ≤ 1 ∧ Stops v l'

theorem Explained.stop {l : List (BitVec 8)} {vset : ℕ} {v : BitVec 16} (hvset : vset ≤ 1)
    (hv : Stops v l) : Explained l vset v :=
  ⟨[], [], l, rfl, Line.nil, hvset, hv⟩

/-- One token more. -/
theorem Explained.cons {t : Token} {w l : List (BitVec 8)} {vset : ℕ} {v : BitVec 16}
    (hw : Spells t w) (h : Explained l (vset + t.weight) v) : Explained (w ++ l) vset v := by
  obtain ⟨ts, s, l', rfl, hs, hvset, hv⟩ := h
  refine ⟨t :: ts, w ++ s, l', (List.append_assoc ..).symm, Line.cons hw hs, ?_, hv⟩
  rw [length_verbosities_cons]
  omega

/-- **Whatever the scanner has taken when it stops was a line** that sets the verbosity at most
once. -/
theorem getOptionsLoop_explained (l : List (BitVec 8)) (vset : ℕ) (o : Options) {v : BitVec 16}
    {o' : Options} (hvset : vset ≤ 1) (h : getOptionsLoop l vset o = some (v, o')) :
    Explained l vset v := by
  have hinvalid (l : List (BitVec 8)) : Stops 2 l := Or.inr (Or.inr rfl)
  fun_induction getOptionsLoop l vset o with
  | case1 => cases h
  | case2 tail =>
      cases h
      exact Explained.stop hvset (Or.inl ⟨rfl, tail, rfl⟩)
  | case3 c tail vset o hc hblank ih => exact Explained.cons (Spells.blank hblank) (ih hvset h)
  | case4 => cases h
  | case5 c vset o hc hblank hlead d tail hhelp =>
      cases h
      exact Explained.stop hvset
        (Or.inr (Or.inl ⟨rfl, c, d, tail, rfl, hlead, (toupper_help_iff d).1 hhelp⟩))
  | case6 =>
      cases h
      exact Explained.stop hvset (hinvalid _)
  | case7 => cases h
  | case8 c vset o hc hblank hlead d hhelp hq hset q tail hq' ih =>
      have hw := Spells.silent hlead ((toupper_eq_iff _).1 hq)
        ((toupper_eq_iff _).1 hq')
      rw [not_not] at hset
      exact Explained.cons hw (ih (by omega) h)
  | case9 c vset o hc hblank hlead d hhelp hq hset q tail hq' ih =>
      have hw := Spells.quiet hlead ((toupper_eq_iff _).1 hq)
      rw [not_not] at hset
      exact Explained.cons hw (ih (by omega) h)
  | case10 =>
      cases h
      exact Explained.stop hvset (hinvalid _)
  | case11 c vset o hc hblank hlead d tail hhelp hq hv hset ih =>
      have hw := Spells.verbose hlead ((toupper_eq_iff _).1 hv)
      rw [not_not] at hset
      exact Explained.cons hw (ih (by omega) h)
  | case12 c vset o hc hblank hlead d tail hhelp hq hv hu ih =>
      exact Explained.cons (Spells.uninstall hlead ((toupper_eq_iff _).1 hu))
        (ih hvset h)
  | case13 c vset o hc hblank hlead d tail hhelp hq hv hu ht ih =>
      exact Explained.cons (Spells.testOnly hlead ((toupper_eq_iff _).1 ht))
        (ih hvset h)
  | case14 =>
      cases h
      exact Explained.stop hvset (hinvalid _)
  | case15 =>
      cases h
      exact Explained.stop hvset (hinvalid _)

/-! ### What a line does -/

theorem Line.nul_notMem {ts : List Token} {s : List (BitVec 8)} (hs : Line ts s) : chNul ∉ s := by
  induction hs with
  | nil => exact List.not_mem_nil
  | cons hw _ ih =>
      rw [List.mem_append, not_or]
      refine ⟨?_, ih⟩
      cases hw with
      | blank hc => simp [hc.ne.1.symm]
      | quiet hlead hq => simp [hlead.ne.1.symm, hq.ne_nul.symm]
      | silent hlead hq hq' =>
          simp [hlead.ne.1.symm, hq.ne_nul.symm, hq'.ne_nul.symm]
      | verbose hlead hv => simp [hlead.ne.1.symm, hv.ne_nul.symm]
      | uninstall hlead hu => simp [hlead.ne.1.symm, hu.ne_nul.symm]
      | testOnly hlead ht => simp [hlead.ne.1.symm, ht.ne_nul.symm]

theorem Spells.length_pos {t : Token} {w : List (BitVec 8)} (hw : Spells t w) : 0 < w.length := by
  cases hw with
  | blank | quiet | silent | verbose | uninstall | testOnly => simp

/-- A line has no more tokens than characters. -/
theorem Line.length_le {ts : List Token} {s : List (BitVec 8)} (hs : Line ts s) :
    ts.length ≤ s.length := by
  induction hs with
  | nil => exact le_rfl
  | cons hw _ ih =>
      have hpos := hw.length_pos
      rw [List.length_cons, List.length_append]
      omega

theorem applyLine_cons (t : Token) (ts : List Token) (o : Options) :
    applyLine (t :: ts) o = applyLine ts (t.apply o) := rfl

/-- The last switch that sets the verbosity counts. -/
theorem applyLine_verbosity (ts : List Token) : ∀ o : Options,
    (applyLine ts o).verbosity = (verbosities ts).getLast?.getD o.verbosity := by
  induction ts with
  | nil => intro o; rfl
  | cons t ts ih =>
      intro o
      rw [applyLine_cons, ih, verbosities_cons]
      cases t with
      | blank | uninstall | testOnly => rfl
      | quiet | silent | verbose =>
          simp [Token.verbosity?, Token.apply, List.getLast?_cons]

theorem applyLine_uninstall (ts : List Token) : ∀ o : Options,
    (applyLine ts o).uninstall = o.uninstall + BitVec.ofNat 16 (ts.count .uninstall) := by
  induction ts with
  | nil => intro o; simp [applyLine]
  | cons t ts ih =>
      intro o
      rw [applyLine_cons, ih]
      cases t with
      | blank | quiet | silent | verbose | testOnly => simp [Token.apply]
      | uninstall =>
          simp only [Token.apply, List.count_cons_self, BitVec.ofNat_add]
          bv_omega

theorem applyLine_testOnly (ts : List Token) : ∀ o : Options,
    (applyLine ts o).testOnly = o.testOnly + BitVec.ofNat 8 (ts.count .testOnly) := by
  induction ts with
  | nil => intro o; simp [applyLine]
  | cons t ts ih =>
      intro o
      rw [applyLine_cons, ih]
      cases t with
      | blank | quiet | silent | verbose | uninstall => simp [Token.apply]
      | testOnly =>
          simp only [Token.apply, List.count_cons_self, BitVec.ofNat_add]
          bv_omega

/-- A counter that does not wrap tells whether the switch occurs. -/
theorem ofNat_count_ne_zero_iff {t : Token} {ts : List Token} {w : ℕ} (h : ts.length < 2 ^ w) :
    BitVec.ofNat w (ts.count t) ≠ 0 ↔ t ∈ ts := by
  have hlt : ts.count t < 2 ^ w := lt_of_le_of_lt List.count_le_length h
  rw [← List.count_pos_iff, Nat.pos_iff_ne_zero, not_iff_not]
  constructor
  · intro hzero
    have hnat := congrArg BitVec.toNat hzero
    simpa [Nat.mod_eq_of_lt hlt] using hnat
  · intro hzero
    simp [hzero]

/-! ### The scanner and the grammar -/

theorem getOptionsLoop_getOptions (argString : Str chNul) (o : Options) :
    getOptionsLoop (argString.mem []) 0 o = some (getOptions argString o) :=
  (Option.some_get _).symm

/-- A well-formed line is accepted, and does what its tokens do. -/
theorem getOptions_of_wellFormed {argString : Str chNul} {ts : List Token}
    (h : WellFormed ts argString.chars) (o : Options) :
    getOptions argString o = (0, applyLine ts o) := by
  have hnul : NoSecondQ [chNul] := by
    rintro c hc
    obtain rfl := Option.some.inj hc
    simp [IsLetter, chNul]
  have hloop := getOptionsLoop_line h.1 hnul 0 o (by simpa using h.2)
  have hspec := getOptionsLoop_getOptions argString o
  rw [Str.mem, hloop] at hspec
  simp only [getOptionsLoop, if_true] at hspec
  exact (Option.some.inj hspec).symm

/-- A help switch behind a well-formed line is found. -/
theorem getOptions_of_help {argString : Str chNul} {ts : List Token} {s rest : List (BitVec 8)}
    {lead help : BitVec 8} (hchars : argString.chars = s ++ lead :: help :: rest)
    (hs : WellFormed ts s) (hlead : IsLead lead) (hhelp : IsHelp help) (o : Options) :
    (getOptions argString o).1 = 1 := by
  have hnoQ : NoSecondQ (lead :: help :: (rest ++ [chNul])) := by
    rintro c hc
    obtain rfl := Option.some.inj hc
    exact hlead.ne.2
  have hloop := getOptionsLoop_line hs.1 hnoQ 0 o (by simpa using hs.2)
  have hspec := getOptionsLoop_getOptions argString o
  rw [Str.mem, hchars, List.append_assoc, List.cons_append, List.cons_append, hloop,
    getOptionsLoop_help hlead hhelp] at hspec
  rw [← Option.some.inj hspec]

/-- What a value of the scanner says about the command tail. -/
theorem getOptions_explained (argString : Str chNul) (o : Options) :
    ((getOptions argString o).1 = 0 ∧ ∃ ts, WellFormed ts argString.chars) ∨
    ((getOptions argString o).1 = 1 ∧ ∃ ts s lead help rest,
      argString.chars = s ++ lead :: help :: rest ∧ WellFormed ts s ∧ IsLead lead ∧ IsHelp help) ∨
    (getOptions argString o).1 = 2 := by
  have hspec := getOptionsLoop_getOptions argString o
  obtain ⟨ts, s, l', hl, hs, hvset, hstop⟩ :=
    getOptionsLoop_explained _ 0 o (Nat.zero_le 1) hspec
  rw [Nat.zero_add] at hvset
  -- what stands before the terminator is the command tail
  have htext : argString.chars = s ++ text chNul l' := by
    rw [← text_append hs.nul_notMem, ← hl, text_mem]
  rcases hstop with ⟨hv, rest, rfl⟩ | ⟨hv, lead, help, rest, rfl, hlead, hhelp⟩ | hv
  · left
    rw [text_nul, List.append_nil] at htext
    exact ⟨hv, ts, htext ▸ hs, hvset⟩
  · right
    left
    refine ⟨hv, ts, s, lead, help, text chNul rest, ?_, ⟨hs, hvset⟩, hlead, hhelp⟩
    rw [htext]
    simp [text, hlead.ne.1, hhelp.ne_nul]
  · right
    right
    exact hv

/-- **The scanner accepts exactly the grammar**: it does not read behind the terminator; its value is
0 for a well-formed line, and then the statics are set as the switches say; it is 1 when a help
switch stands behind a well-formed line, and 2 otherwise. -/
theorem getOptions_grammar (argString : Str chNul) (o : Options)
    (hlen : argString.chars.length ≤ 127) (huninstall : o.uninstall = 0)
    (htestOnly : o.testOnly = 0) :
    (getOptionsLoop (argString.mem []) 0 o).isSome ∧
    ((getOptions argString o).1 = 0 ↔ ∃ ts, WellFormed ts argString.chars) ∧
    (∀ ts, WellFormed ts argString.chars →
      (∀ v ∈ verbosities ts, (getOptions argString o).2.verbosity = v) ∧
      (verbosities ts = [] → (getOptions argString o).2.verbosity = o.verbosity) ∧
      ((getOptions argString o).2.uninstall ≠ 0 ↔ Token.uninstall ∈ ts) ∧
      ((getOptions argString o).2.testOnly ≠ 0 ↔ Token.testOnly ∈ ts)) ∧
    ((getOptions argString o).1 = 1 ↔ ∃ ts s lead help rest,
      argString.chars = s ++ lead :: help :: rest ∧ WellFormed ts s ∧ IsLead lead ∧ IsHelp help) ∧
    ((getOptions argString o).1 ≠ 0 → (getOptions argString o).1 ≠ 1 →
      (getOptions argString o).1 = 2) := by
  have hexplained := getOptions_explained argString o
  refine ⟨?_, ?_, ?_, ?_, ?_⟩
  · rw [getOptionsLoop_getOptions]
    rfl
  · constructor
    · intro hv
      rcases hexplained with ⟨-, h⟩ | ⟨hv', -⟩ | hv'
      · exact h
      · simp [hv'] at hv
      · simp [hv'] at hv
    · rintro ⟨ts, h⟩
      rw [getOptions_of_wellFormed h]
  · intro ts h
    have hts : ts.length ≤ 127 := h.1.length_le.trans hlen
    rw [getOptions_of_wellFormed h, applyLine_verbosity, applyLine_uninstall, applyLine_testOnly,
      huninstall, htestOnly]
    refine ⟨?_, ?_, ?_, ?_⟩
    · intro v hv
      -- the only verbosity of the line is the last one
      obtain ⟨v', hv'⟩ := List.length_eq_one_iff.1
        (le_antisymm h.2 (List.length_pos_of_mem hv))
      rw [hv', List.mem_singleton] at hv
      rw [hv', hv]
      rfl
    · intro hnone
      rw [hnone]
      rfl
    · have hlt : ts.length < 2 ^ 16 := by omega
      simpa using ofNat_count_ne_zero_iff (t := .uninstall) hlt
    · have hlt : ts.length < 2 ^ 8 := by omega
      simpa using ofNat_count_ne_zero_iff (t := .testOnly) hlt
  · constructor
    · intro hv
      rcases hexplained with ⟨hv', -⟩ | ⟨-, h⟩ | hv'
      · simp [hv'] at hv
      · exact h
      · simp [hv'] at hv
    · rintro ⟨ts, s, lead, help, rest, hchars, hs, hlead, hhelp⟩
      exact getOptions_of_help hchars hs hlead hhelp o
  · intro hne hne'
    rcases hexplained with ⟨hv, -⟩ | ⟨hv, -⟩ | hv
    · exact absurd hv hne
    · exact absurd hv hne'
    · exact hv

/-- The command tail ` /u -QQ`. -/
def uninstallSilently : Str chNul :=
  ⟨[0x20, 0x2F, 0x75, 0x20, 0x2D, 0x51, 0x51], by decide⟩

theorem uninstallSilently_wellFormed :
    WellFormed [.blank, .uninstall, .blank, .silent] uninstallSilently.chars :=
  ⟨.cons (.blank (Or.inl rfl)) (.cons (.uninstall (Or.inl rfl) (Or.inr rfl))
    (.cons (.blank (Or.inl rfl)) (.cons (.silent (Or.inr rfl) (Or.inl rfl) (Or.inl rfl)) .nil))),
    by decide⟩

theorem uninstallSilently_accepted : (getOptions uninstallSilently .start).1 = 0 ∧
    (getOptions uninstallSilently .start).2.verbosity = .silent ∧
    (getOptions uninstallSilently .start).2.uninstall ≠ 0 := by
  obtain ⟨-, haccept, hstatics, -⟩ :=
    getOptions_grammar uninstallSilently .start (by decide) rfl rfl
  obtain ⟨hverbosity, -, huninstall, -⟩ := hstatics _ uninstallSilently_wellFormed
  exact ⟨haccept.2 ⟨_, uninstallSilently_wellFormed⟩, hverbosity .silent (by decide),
    huninstall.2 (by decide)⟩

end Vbsmount

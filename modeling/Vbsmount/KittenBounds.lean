/-
**Reading a catalogue stays inside the buffer.**

A file that is accepted leaves at least the last two cells of the buffer empty, and two terminators
stop everything that reads through the buffer: a search, a number, and the loop over the escape
sequences, which may pass over the first of them.  The only access in front of the buffer is the
look for a `'\r'` in front of the first `'\n'`.

Main definitions:

* `Bounded` — a buffer that ends with two terminators;
* `InBounds` — and a table that points into it.

Main results:

* `Bounded.processEscChars` — the loop over the escape sequences stays inside;
* `catreadLine_bounded`, `catreadLoop_bounded` — a line, and the lines;
* `parseCatalog_inBounds` — a file that does not start with a line end;
* `parseCatalog_bounded` — **a file makes `catread` leave the buffer exactly when it starts with a
  line end**.
-/

import Vbsmount.KittenCatalog

set_option relaxedAutoImplicit false
set_option autoImplicit false

namespace Vbsmount

open CString

/-- The buffer ends with two terminators. -/
def Bounded (m : List (BitVec 8)) : Prop := ∃ p, p.length = 8190 ∧ m = p ++ [chNul, chNul]

/-- The buffer ends with two terminators, and the table points into it. -/
structure InBounds (k : Kitten) : Prop where
  contents : Bounded k.catcontents
  points : ∀ p ∈ k.catpoints, ∀ o ∈ p.text, o ≤ 8190

section Bounded

variable {m : List (BitVec 8)}

theorem Bounded.length (h : Bounded m) : m.length = 8192 := by
  obtain ⟨p, hp, rfl⟩ := h
  simp [hp]

theorem Bounded.set (h : Bounded m) (j : ℕ) : Bounded (m.set j chNul) := by
  obtain ⟨p, hp, rfl⟩ := h
  rcases Nat.lt_or_ge j 8190 with hj | hj
  · exact ⟨p.set j chNul, by rw [List.length_set, hp], List.set_append_left j chNul (by omega)⟩
  · refine ⟨p, hp, ?_⟩
    rw [List.set_append_right j chNul (by omega), hp]
    obtain ⟨i, rfl⟩ : ∃ i, j = 8190 + i := ⟨j - 8190, by omega⟩
    rw [Nat.add_sub_cancel_left]
    match i with
    | 0 => rfl
    | 1 => rfl
    | _ + 2 => rfl

/-- What is ahead at a place in front of the last cell. -/
theorem Bounded.drop (h : Bounded m) {j : ℕ} (hj : j ≤ 8190) :
    ∃ p, p.length = 8190 - j ∧ m.drop j = p ++ [chNul, chNul] := by
  obtain ⟨p, hp, rfl⟩ := h
  exact ⟨p.drop j, by rw [List.length_drop, hp],
    List.drop_append_of_le_length (by omega)⟩

/-- A search from inside the buffer ends inside the buffer. -/
theorem Bounded.strchr (h : Bounded m) {j : ℕ} (hj : j ≤ 8190) {c : BitVec 8} (hc : c ≠ chNul) :
    strchr (m.drop j) c = some none ∨ ∃ n, strchr (m.drop j) c = some (some n) ∧ j + n < 8190 := by
  obtain ⟨p, hp, hdrop⟩ := h.drop hj
  have hmem : chNul ∈ m.drop j := by
    rw [hdrop]
    simp
  obtain ⟨o, ho⟩ := Option.isSome_iff_exists.1 (index_isSome (c := c) hmem)
  cases o with
  | none => exact .inl ho
  | some n =>
      refine .inr ⟨n, ho, ?_⟩
      obtain ⟨a, t, heq, rfl, hca, hnul⟩ := index_eq_some ho
      -- the terminators are not in front of what is found
      by_contra hge
      have hcell : (m.drop j)[p.length]? = some chNul := by
        rw [hdrop]
        simp
      rw [heq] at hcell
      rcases Nat.lt_or_ge p.length a.length with hlt | hle
      · rw [List.getElem?_append_left hlt] at hcell
        exact hnul (List.mem_of_getElem? hcell)
      · have hlen : p.length = a.length := by omega
        rw [hlen, List.getElem?_append_right le_rfl, Nat.sub_self, List.getElem?_cons_zero] at hcell
        exact hc (Option.some.inj hcell)

/-- A number that is read up to the end of its string. -/
theorem mystrtoulLoop_isSome (base : ℕ) (l : List (BitVec 8)) (ret : BitVec 16) :
    (mystrtoulLoop base (strEnd chNul l) l ret).isSome := by
  induction l generalizing ret with
  | nil => rfl
  | cons c l ih =>
      rw [strEnd]
      split_ifs with hc
      · rfl
      · rw [mystrtoulLoop]
        cases hd : digitOf c with
        | none => rfl
        | some digit =>
            dsimp only
            split_ifs
            · rfl
            · exact ih _

/-- **The loop over the escape sequences stays inside**, and leaves the two terminators. -/
theorem Bounded.processEscChars (h : Bounded m) {line : ℕ} (hline : line ≤ 8190) :
    ∃ m', processEscChars m line = some m' ∧ Bounded m' := by
  obtain ⟨p, hp, hdrop⟩ := h.drop hline
  have hlength := h.length
  obtain ⟨out, rest, hreads, hrest, hroom⟩ :=
    exists_reads_escReader (l := m.drop line) (.inr ⟨p, hdrop⟩)
  have hroom' : line + out.length ≤ 8190 := by
    have hrest' : 2 ≤ room rest := le_max_left ..
    have hahead : room (m.drop line) = 8192 - line := by
      rw [room, List.length_drop, hlength]
      omega
    omega
  refine ⟨_, InPlace.run_eq hreads advances_escReader rfl le_rfl (by rw [List.length_drop]; omega),
    ?_⟩
  rcases Nat.lt_or_ge (line + out.length) 8190 with hlt | hge
  · obtain ⟨q, hq, hbehind⟩ := h.drop (j := line + out.length + 1) (by omega)
    refine ⟨m.take line ++ (out ++ chNul :: q), ?_, ?_⟩
    · simp [hlength, hq]
      omega
    · simp [hbehind]
  · have hlast : m.drop (line + out.length + 1) = [chNul] := by
      obtain ⟨q, hq, hm⟩ := h
      rw [hm, show line + out.length + 1 = q.length + 1 by omega, ← List.drop_drop, List.drop_left]
      rfl
    refine ⟨m.take line ++ out, ?_, ?_⟩
    · simp [hlength]
      omega
    · simp [hlast]

end Bounded

/-! ### The lines -/

theorem InBounds.setContents {k : Kitten} (h : InBounds k) {m : List (BitVec 8)} (hm : Bounded m) :
    InBounds { k with catcontents := m } :=
  ⟨hm, h.points⟩

theorem InBounds.setPoint {k : Kitten} (h : InBounds k) {m : List (BitVec 8)} (hm : Bounded m)
    (i : ℕ) {p : CatString} (hp : ∀ o ∈ p.text, o ≤ 8190) :
    InBounds { k with catcontents := m, catpoints := k.catpoints.set i p } where
  contents := hm
  points := by
    intro q hq
    rcases List.mem_or_eq_of_mem_set hq with hq | rfl
    · exact h.points q hq
    · exact hp

/-- **A line that starts inside the buffer is taken inside the buffer**, if there is room in the
table for its entry. -/
theorem catreadLine_bounded {k : Kitten} (h : InBounds k) {start : ℕ} (hstart : start ≤ 8190)
    (i : ℕ) : (∃ k' i', catreadLine k start i = .ok (k', i') ∧ InBounds k') ∨
      catreadLine k start i = .error .catpoints := by
  obtain ⟨c, t, hhead⟩ : ∃ c t, k.catcontents.drop start = c :: t := by
    obtain ⟨p, -, hdrop⟩ := h.contents.drop hstart
    rw [hdrop]
    cases p with
    | nil => exact ⟨_, _, rfl⟩
    | cons c p => exact ⟨_, _, rfl⟩
  have hcolon := h.contents.strchr hstart (c := chColon) (by decide)
  rw [hhead] at hcolon
  by_cases hdigit : 0x30 ≤ c ∧ c ≤ 0x39
  · rcases hcolon with hcolon | ⟨n, hcolon, hn⟩
    · simp only [catreadLine, hhead, if_neg (not_not.2 hdigit), hcolon]
      exact .inl ⟨k, i, rfl, h⟩
    · have hm := h.contents.set (start + n)
      rcases hm.strchr hstart (c := chDot) (by decide) with hdot | ⟨d, hdot, hd⟩
      · simp only [catreadLine, hhead, if_neg (not_not.2 hdigit), hcolon, hdot]
        exact .inl ⟨_, _, rfl, h.setContents hm⟩
      · have hm' := hm.set (start + d)
        obtain ⟨key1, hkey1⟩ := Option.isSome_iff_exists.1 (mystrtoulLoop_isSome 10
          (((k.catcontents.set (start + n) chNul).set (start + d) chNul).drop start) 0)
        obtain ⟨key2, hkey2⟩ := Option.isSome_iff_exists.1 (mystrtoulLoop_isSome 10
          (((k.catcontents.set (start + n) chNul).set (start + d) chNul).drop (start + d + 1)) 0)
        have hmsg : start + n + 1 ≤ 8190 := by omega
        obtain ⟨m, hrun, hm''⟩ := hm'.processEscChars hmsg
        simp only [catreadLine, hhead, if_neg (not_not.2 hdigit), hcolon, hdot, mystrtoul, hkey1,
          hkey2, hrun]
        by_cases hsign : 0 ≤ key1.toInt ∧ 0 ≤ key2.toInt
        · by_cases hroom : i < 128
          · rw [if_pos hsign, if_pos hroom]
            exact .inl ⟨_, _, rfl, h.setPoint hm'' i (by simp; omega)⟩
          · rw [if_pos hsign, if_neg hroom]
            exact .inr rfl
        · rw [if_neg hsign]
          exact .inl ⟨_, _, rfl, h.setContents hm'⟩
  · simp only [catreadLine, hhead, if_pos hdigit]
    exact .inl ⟨k, i, rfl, h⟩

theorem cutLine_bounded {m : List (BitVec 8)} (h : Bounded m) {tok : ℕ} (htok : tok ≠ 0) :
    ∃ m', cutLine m tok = .ok m' ∧ Bounded m' := by
  simp only [cutLine, if_neg htok]
  split_ifs
  · exact ⟨_, rfl, (h.set tok).set (tok - 1)⟩
  · exact ⟨_, rfl, h.set tok⟩

/-- **The lines are taken inside the buffer**, if the first one is not empty. -/
theorem catreadLoop_bounded (fuel : ℕ) {k : Kitten} (h : InBounds k) {start : ℕ}
    (hstart : start ≤ 8190) (hfirst : start = 0 → k.catcontents.head? ≠ some chLf)
    (hfuel : 8191 ≤ start + fuel) (i : ℕ) :
    (∃ k', catreadLoop fuel k start i = .ok k' ∧ InBounds k') ∨
      catreadLoop fuel k start i = .error .catpoints := by
  induction fuel generalizing k start i with
  | zero => omega
  | succ fuel ih =>
      rcases h.contents.strchr hstart (c := chLf) (by decide) with hlf | ⟨n, hlf, hn⟩
      · refine .inl ⟨k, ?_, h⟩
        simp only [catreadLoop, hlf]
      · have htok : start + n ≠ 0 := by
          intro hzero
          obtain ⟨rfl, rfl⟩ : start = 0 ∧ n = 0 := by omega
          obtain ⟨a, t, heq, ha, -, -⟩ := index_eq_some hlf
          obtain rfl := List.eq_nil_of_length_eq_zero ha
          rw [List.drop_zero, List.nil_append] at heq
          exact hfirst rfl (by rw [heq]; rfl)
        obtain ⟨m, hcut, hm⟩ := cutLine_bounded h.contents htok
        have hround : catreadLoop (fuel + 1) k start i =
            (catreadLine { k with catcontents := m } start i).bind fun r =>
              catreadLoop fuel r.1 (start + n + 1) r.2 := by
          simp only [catreadLoop, hlf, hcut]
          rfl
        rw [hround]
        rcases catreadLine_bounded (h.setContents hm) hstart i with ⟨k', i', hline, hk'⟩ | hline
        · rw [hline]
          exact ih hk' (by omega) (by omega) (by omega) i'
        · rw [hline]
          exact .inr rfl

/-- A file that starts with a line end makes `catread` look in front of the buffer. -/
theorem parseCatalog_of_head {k : Kitten} {bs : List (BitVec 8)} (hhead : bs.head? = some chLf) :
    parseCatalog k bs = .error .catcontents := by
  cases bs with
  | nil => cases hhead
  | cons b bs =>
      obtain rfl := Option.some.inj hhead
      rfl

/-- Any other file keeps it inside. -/
theorem parseCatalog_inBounds (k : Kitten) {bs : List (BitVec 8)} (hlen : bs.length < 8191)
    (hhead : bs.head? ≠ some chLf) : parseCatalog k.clear bs = .error .catpoints ∨
      ∃ k', parseCatalog k.clear bs = .ok k' ∧ InBounds k' := by
  have hbounded : Bounded (bs ++ List.replicate (8192 - bs.length) 0) := by
    refine ⟨bs ++ List.replicate (8190 - bs.length) 0, by simp; omega, ?_⟩
    rw [List.append_assoc, show 8192 - bs.length = 8190 - bs.length + 2 by omega,
      List.replicate_add]
    rfl
  have hclear : InBounds { k.clear with
      catcontents := bs ++ List.replicate (8192 - bs.length) 0 } :=
    ⟨hbounded, by simp [Kitten.clear]⟩
  refine (catreadLoop_bounded 8192 hclear (by omega) (fun _ => ?_) (by omega) 0).symm
  cases bs with
  | nil =>
      have hzero : (List.replicate 8192 (0 : BitVec 8)).head? = some 0 := by
        rw [List.head?_replicate, if_neg (by decide)]
      intro h
      cases hzero.symm.trans h
  | cons b bs => exact hhead

end Vbsmount

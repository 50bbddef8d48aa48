/-
**Decoding a string in place.**

A decoder reads through memory with one pointer and stores what it puts out through a second one,
which starts at the same place: every round puts out one cell and takes at least one, so that the
second pointer never overtakes the first and what is still to be read has not been written over.

Main definitions:

* `InPlace.Reader` — one round of a decoder, as a function of what lies ahead of it;
* `InPlace.Reads` — the rounds up to a terminator: what they put out, and where they stop;
* `InPlace.store`, `InPlace.run` — the decoder in place, with every access checked against the end
  of the memory.

Main results:

* `InPlace.Reads.length_le` — what is put out is never longer than what is taken;
* `InPlace.run_eq` — **in place the decoder does what it does on a copy**: it leaves the decoded
  string and its terminator at the place where it started, and everything in front of that and
  behind it as it was;
* `InPlace.exists_reads` — a decoder that is never led out of memory stops.
-/

import Mathlib.Tactic

set_option relaxedAutoImplicit false
set_option autoImplicit false

namespace InPlace

variable {α : Type}

/-- A round of a decoder: from what lies ahead, the cell it puts out and the number of cells it
takes.  There is none when the round would read behind the end. -/
abbrev Reader (α : Type) := List α → Option (α × ℕ)

/-- Every round takes a cell. -/
def Reader.Advances (step : Reader α) : Prop := ∀ l c k, step l = some (c, k) → 0 < k

/-- The rounds up to a terminator: `l` is read, `out` is put out, and the rounds stop at `rest`. -/
inductive Reads (nul : α) (step : Reader α) : List α → List α → List α → Prop
  | stop (l : List α) : Reads nul step (nul :: l) [] (nul :: l)
  | step {b c : α} {l out rest : List α} {k : ℕ} (hb : b ≠ nul) (h : step (b :: l) = some (c, k))
      (ht : Reads nul step ((b :: l).drop k) out rest) : Reads nul step (b :: l) (c :: out) rest

/-- `*dst = c`. -/
def store (m : List α) (dst : ℕ) (c : α) : Option (List α) :=
  if dst < m.length then some (m.set dst c) else none

/-- The decoder in place, for a number of rounds. -/
def run [DecidableEq α] (nul : α) (step : Reader α) : ℕ → List α → ℕ → ℕ → Option (List α)
  | 0, _, _, _ => none
  | fuel + 1, m, src, dst =>
      match m[src]? with
      | none => none
      | some b =>
          if b = nul then store m dst nul
          else
            match step (m.drop src) with
            | none => none
            | some (c, k) =>
                match store m dst c with
                | none => none
                | some m => run nul step fuel m (src + k) (dst + 1)

section

variable {nul : α} {step : Reader α} {l out rest : List α}

/-- **What is put out is never longer than what is taken.** -/
theorem Reads.length_le (h : Reads nul step l out rest) (hadv : step.Advances) :
    out.length + rest.length ≤ l.length := by
  induction h with
  | stop l => simp
  | @step b c l out rest k hb h ht ih =>
      have hk : 0 < k := hadv _ _ _ h
      rw [List.length_drop] at ih
      simp only [List.length_cons] at ih ⊢
      omega

/-- What lies ahead fixes what is put out and where the rounds stop. -/
theorem Reads.unique (h : Reads nul step l out rest) {out' rest' : List α}
    (h' : Reads nul step l out' rest') : out = out' ∧ rest = rest' := by
  induction h generalizing out' rest' with
  | stop l =>
      cases h' with
      | stop => exact ⟨rfl, rfl⟩
      | step hb => exact absurd rfl hb
  | step hb hs _ ih =>
      cases h' with
      | stop => exact absurd rfl hb
      | step hb' hs' ht' =>
          obtain ⟨rfl, rfl⟩ := Prod.mk.inj (Option.some.inj (hs.symm.trans hs'))
          obtain ⟨rfl, rfl⟩ := ih ht'
          exact ⟨rfl, rfl⟩

theorem store_eq {m : List α} {dst : ℕ} (h : dst < m.length) (c : α) :
    store m dst c = some (m.set dst c) := if_pos h

theorem head_of_drop {m : List α} {src : ℕ} {b : α} (h : m.drop src = b :: l) :
    m[src]? = some b := by
  have hhead := congrArg (fun t => t[0]?) h
  simpa using hhead

theorem lt_length_of_drop {m : List α} {src : ℕ} {b : α} (h : m.drop src = b :: l) :
    src < m.length := by
  by_contra hge
  rw [List.drop_eq_nil_of_le (Nat.not_lt.1 hge)] at h
  cases h

/-- **In place the decoder does what it does on a copy.** -/
theorem run_eq [DecidableEq α] (h : Reads nul step l out rest) (hadv : step.Advances) {m : List α}
    {src dst fuel : ℕ} (hm : m.drop src = l) (hdst : dst ≤ src) (hfuel : l.length < fuel) :
    run nul step fuel m src dst =
      some (m.take dst ++ (out ++ nul :: m.drop (dst + out.length + 1))) := by
  induction h generalizing m src dst fuel with
  | stop l =>
      cases fuel with
      | zero => cases hfuel
      | succ fuel =>
          have hlt : dst < m.length := hdst.trans_lt (lt_length_of_drop hm)
          rw [run, head_of_drop hm]
          simp [store_eq hlt, List.set_eq_take_append_cons_drop, hlt]
  | @step b c l out rest k hb hs ht ih =>
      cases fuel with
      | zero => cases hfuel
      | succ fuel =>
          have hk : 0 < k := hadv _ _ _ hs
          have hlt : dst < m.length := hdst.trans_lt (lt_length_of_drop hm)
          -- what is still to be read lies behind the cell that is written
          have hahead : (m.set dst c).drop (src + k) = (b :: l).drop k := by
            rw [List.drop_set_of_lt (by omega), ← List.drop_drop, hm]
          have hshort : ((b :: l).drop k).length < fuel := by
            rw [List.length_drop]
            rw [List.length_cons] at hfuel ⊢
            omega
          have hrest := ih hahead (show dst + 1 ≤ src + k by omega) hshort
          have htake : (m.set dst c).take (dst + 1) = m.take dst ++ [c] := by
            rw [List.set_eq_take_append_cons_drop, if_pos hlt, List.take_append]
            simp [Nat.min_eq_left hlt.le]
          have hbehind : (m.set dst c).drop (dst + 1 + out.length + 1) =
              m.drop (dst + (c :: out).length + 1) := by
            rw [List.drop_set_of_lt (by omega), List.length_cons]
            congr 1
            omega
          rw [run, head_of_drop hm]
          simp only [if_neg hb, hm, hs, store_eq hlt, hrest, htake, hbehind]
          simp

/-- **A decoder that is never led out of memory stops.**  What is ahead of it meets `I`, which says
that a round can be read and keeps `I`, and weighs less from round to round. -/
theorem exists_reads (I : List α → Prop) (weight : List α → ℕ) (hnil : ¬ I [])
    (hstep : ∀ b l, I (b :: l) → b ≠ nul → ∃ c k, step (b :: l) = some (c, k) ∧
      I ((b :: l).drop k) ∧ weight ((b :: l).drop k) < weight (b :: l)) (hl : I l) :
    ∃ out rest, Reads nul step l out rest ∧ I rest ∧ out.length + weight rest ≤ weight l := by
  classical
  induction hn : weight l using Nat.strong_induction_on generalizing l with
  | _ n ih =>
      cases l with
      | nil => exact absurd hl hnil
      | cons b l =>
          by_cases hb : b = nul
          · subst hb
            exact ⟨[], b :: l, .stop l, hl, by simp [hn]⟩
          · obtain ⟨c, k, hs, hI, hlt⟩ := hstep b l hl hb
            rw [hn] at hlt
            obtain ⟨out, rest, hreads, hrest, hle⟩ := ih _ hlt hI rfl
            refine ⟨c :: out, rest, .step hb hs hreads, hrest, ?_⟩
            rw [List.length_cons]
            omega

end

end InPlace

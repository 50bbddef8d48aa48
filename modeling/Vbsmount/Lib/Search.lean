/-
**Linear search with the loop counter as its result.**

The loop `for ( i = a; i < n; ++i ) if ( p(i) ) break;` leaves the counter at the first index from
`a` on that satisfies `p`, or at `n` when there is none.  Programs that keep the counter in a
longer-lived variable go on using it afterwards, so what matters is its value at the exit, on both
ways out.

Main definitions:

* `Search.scan` — the counter at the exit of the loop.

Main results:

* `Search.le_scan`, `Search.not_of_lt_scan`, `Search.scan_found` — where the counter stops;
* `Search.scan_lt_iff` — the loop breaks exactly when some index in range satisfies `p`;
* `Search.scan_eq_of_unique` — it stops at the only index that does.
-/

import Mathlib.Tactic

set_option relaxedAutoImplicit false
set_option autoImplicit false

namespace Search

/-- The loop counter at the exit, from `i` with `left` iterations left. -/
def scanFrom (p : ℕ → Bool) (i : ℕ) : ℕ → ℕ
  | 0 => i
  | left + 1 => if p i then i else scanFrom p (i + 1) left

/-- **The loop counter at the exit** of `for ( i = a; i < n; ++i ) if ( p(i) ) break;`. -/
def scan (p : ℕ → Bool) (a n : ℕ) : ℕ := scanFrom p a (n - a)

section

variable {p : ℕ → Bool} {a n : ℕ}

/-- What one exit of the loop says: the range covered, the indices passed over, and the reason for
stopping. -/
theorem scanFrom_spec (p : ℕ → Bool) (left : ℕ) : ∀ i,
    i ≤ scanFrom p i left ∧ scanFrom p i left ≤ i + left ∧
      (∀ j, i ≤ j → j < scanFrom p i left → p j = false) ∧
      (scanFrom p i left < i + left → p (scanFrom p i left) = true) := by
  induction left with
  | zero => intro i; exact ⟨le_rfl, le_rfl, fun j h₁ h₂ => absurd h₂ (Nat.not_lt.2 h₁),
      fun h => absurd h (Nat.lt_irrefl _)⟩
  | succ left ih =>
      intro i
      by_cases hp : p i = true
      · rw [scanFrom, if_pos hp]
        exact ⟨le_rfl, by omega, fun j h₁ h₂ => absurd h₂ (Nat.not_lt.2 h₁), fun _ => hp⟩
      · rw [scanFrom, if_neg hp]
        obtain ⟨h₁, h₂, h₃, h₄⟩ := ih (i + 1)
        refine ⟨by omega, by omega, ?_, fun h => h₄ (by omega)⟩
        intro j hj hlt
        rcases Nat.eq_or_lt_of_le hj with rfl | hj
        · exact Bool.eq_false_iff.2 hp
        · exact h₃ j hj hlt

theorem le_scan : a ≤ scan p a n := (scanFrom_spec p (n - a) a).1

/-- The loop passes only over indices that do not satisfy `p`. -/
theorem not_of_lt_scan {j : ℕ} (ha : a ≤ j) (hj : j < scan p a n) : p j = false :=
  (scanFrom_spec p (n - a) a).2.2.1 j ha hj

/-- Where the loop breaks, `p` holds. -/
theorem scan_found (h : scan p a n < n) : p (scan p a n) = true := by
  have ha : a ≤ scan p a n := le_scan
  exact (scanFrom_spec p (n - a) a).2.2.2 (by rw [scan] at h ha; omega)

/-- **The loop breaks exactly when some index in range satisfies `p`.** -/
theorem scan_lt_iff : scan p a n < n ↔ ∃ j, a ≤ j ∧ j < n ∧ p j = true := by
  constructor
  · intro h
    exact ⟨scan p a n, le_scan, h, scan_found h⟩
  · rintro ⟨j, ha, hj, hp⟩
    by_contra hn
    have hlt : j < scan p a n := by omega
    rw [not_of_lt_scan ha hlt] at hp
    exact Bool.false_ne_true hp

/-- The loop stops at the only index that satisfies `p`. -/
theorem scan_eq_of_unique {k : ℕ} (ha : a ≤ k) (hk : k < n) (hp : p k = true)
    (hu : ∀ j, a ≤ j → j < n → p j = true → j = k) : scan p a n = k :=
  hu _ le_scan (scan_lt_iff.2 ⟨k, ha, hk, hp⟩) (scan_found (scan_lt_iff.2 ⟨k, ha, hk, hp⟩))

end

end Search

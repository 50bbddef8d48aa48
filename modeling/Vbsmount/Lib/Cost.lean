/-
**Amortised bounds on the operations of a program.**

Each operation has a weight, which may be negative: then it pays for operations that come before or
behind it.  A bound on the weights of every path through a program, whatever the operations are
answered, is a bound on the weights of the operations of its runs.

Main definitions:

* `Program.Costs` — the weights on every path add up to at most a number;
* `Program.weight` — the weights of the operations of a run.

Main results:

* `Program.Costs.bind`, `Program.Costs.ite`, `Program.Costs.mono` — the rules;
* `Program.Costs.weight_le` — **soundness**.
-/

import Vbsmount.Lib.Program
import Mathlib.Algebra.BigOperators.Group.List.Basic
import Mathlib.Tactic.Linarith

set_option relaxedAutoImplicit false
set_option autoImplicit false

namespace Program

variable {S : OpSig} {α β σ : Type} {w : S.Op → ℤ}

/-- The weights of the operations on every path through the program add up to at most `n`. -/
def Costs (w : S.Op → ℤ) : Program S α → ℤ → Prop
  | ret _, n => 0 ≤ n
  | call o k, n => ∀ r, Costs w (k r) (n - w o)

theorem Costs.ret {a : α} {n : ℤ} (h : 0 ≤ n) : Costs w (Program.ret a : Program S α) n := h

theorem Costs.mono {p : Program S α} {n n' : ℤ} (hp : Costs w p n) (h : n ≤ n') : Costs w p n' := by
  induction p generalizing n n' with
  | ret a => exact le_trans hp h
  | call o k ih => exact fun r => ih r (hp r) (by linarith)

/-- **A sequence costs what its parts cost.** -/
theorem Costs.bind {p : Program S α} {f : α → Program S β} {n n' : ℤ} (hp : Costs w p n)
    (hf : ∀ a, Costs w (f a) n') : Costs w (p >>= f) (n + n') := by
  induction p generalizing n with
  | ret a => exact (hf a).mono (le_add_of_nonneg_left hp)
  | call o k ih =>
      intro r
      have h := ih r (hp r)
      rwa [sub_add_eq_add_sub] at h

theorem Costs.ite {c : Prop} [Decidable c] {p q : Program S α} {n : ℤ} (hp : Costs w p n)
    (hq : Costs w q n) : Costs w (if c then p else q) n := by
  split_ifs
  · exact hp
  · exact hq

/-- The weights of the operations of a run. -/
def weight (w : S.Op → ℤ) (h : (o : S.Op) → σ → S.Res o × σ) (p : Program S α) (s : σ) : ℤ :=
  ((calls h p s).map w).sum

/-- **Soundness**: no run costs more. -/
theorem Costs.weight_le {p : Program S α} {n : ℤ} (hp : Costs w p n)
    (h : (o : S.Op) → σ → S.Res o × σ) (s : σ) : weight w h p s ≤ n := by
  induction p generalizing n s with
  | ret a => exact hp
  | call o k ih =>
      have hrest := ih _ (hp (h o s).1) (h o s).2
      rw [weight, calls, List.map_cons, List.sum_cons]
      rw [weight] at hrest
      linarith

end Program

/-
**Programs that keep a state of their own besides.**

A program that carries a state through its steps may do to its environment exactly what a plain
program does, and change its own state on the side.  Then the plain one is what is left of it when
that state is forgotten.

Main definitions:

* `Program.Aside` — a run is that of the plain program, and takes the state on the side from one
  value to another.

Main results:

* `Program.Aside.lift`, `Program.Aside.ret`, `Program.Aside.modify`, `Program.Aside.get` — the steps
  of such a program;
* `Program.Aside.bind` — **a sequence goes on where its first part has ended**.
-/

import Vbsmount.Lib.Program

set_option relaxedAutoImplicit false
set_option autoImplicit false

namespace Program

variable {S : OpSig} {α β σ τ : Type} {h : (o : S.Op) → σ → S.Res o × σ}

/-- The run of `p` from `s` is that of `q`, and takes the state on the side from `t` to `t'`. -/
def Aside (h : (o : S.Op) → σ → S.Res o × σ) (p : StateT τ (Program S) α) (q : Program S α) (s : σ)
    (t t' : τ) : Prop :=
  run h (p.run t) s = (((run h q s).1, t'), (run h q s).2)

theorem Aside.lift (q : Program S α) (s : σ) (t : τ) :
    Aside h (liftM q : StateT τ (Program S) α) q s t t := by
  rw [Aside]
  exact run_bind q (fun a => ret (a, t)) s

theorem Aside.ret (a : α) (s : σ) (t : τ) :
    Aside h (pure a : StateT τ (Program S) α) (ret a) s t t := rfl

theorem Aside.modify (f : τ → τ) (s : σ) (t : τ) :
    Aside h (modify f : StateT τ (Program S) PUnit) (Program.ret PUnit.unit) s t (f t) := rfl

/-- **A sequence goes on where its first part has ended.** -/
theorem Aside.bind {p : StateT τ (Program S) α} {q : Program S α} {f : α → StateT τ (Program S) β}
    {g : α → Program S β} {s : σ} {t t' t'' : τ} (hp : Aside h p q s t t')
    (hf : Aside h (f (run h q s).1) (g (run h q s).1) (run h q s).2 t' t'') :
    Aside h (p >>= f) (q >>= g) s t t'' := by
  rw [Aside] at hp hf ⊢
  rw [StateT.run_bind, run_bind, hp, run_bind]
  exact hf

/-- The state on the side is read. -/
theorem Aside.get {f : τ → StateT τ (Program S) β} {q : Program S β} {s : σ} {t t' : τ}
    (hf : Aside h (f t) q s t t') : Aside h (get >>= f) q s t t' := hf

end Program

/-
**Programs that talk to an environment, and what holds across every interleaving with it.**

A program is a tree: it has ended with a value, or it performs an operation and goes on with the
answer.  The tree fixes what the program does and says nothing about what the operations mean, so
one program text can be run in two ways:

* *sequentially*, by a handler that answers each operation and updates a state
  (`Program.run`);
* *interleaved*, by a relation that says which answers an operation may have, together with the
  steps the environment may take on its own between any two operations (`Program.Reach`).

Main definitions:

* `OpSig`, `Program` — operations with the types of their answers, and programs over them;
* `Program.run` — the run of a program under a handler;
* `Program.calls`, `Program.Only` — the operations of a run, and that a program performs only
  operations of a kind;
* `Semantics`, `Program.Step`, `Program.Reach` — the interleaved semantics;
* `Program.wp` — the states from which a program keeps an invariant at every point of every
  interleaving and ends in states satisfying a postcondition;
* `Program.Assertion`, `Program.Triple` — assertions that hold whatever the environment does, and
  proof outlines made of them.

Main results:

* `Program.bind_assoc` — sequencing is associative;
* `Program.run_bind`, `Program.calls_bind` — the run of a sequence is the sequence of the runs;
* `Program.Only.of_mem_calls` — the operations of a run are of the kind the program is restricted to;
* `Program.wp_bind`, `Program.wp_mono`, `Program.wp_call_of_stable`, `Program.wp_ret_of_stable` —
  the rules: sequencing, consequence, and the two proof-outline rules, which ask for an assertion
  that the environment cannot falsify;
* `Program.Triple.op`, `Program.Triple.bind`, `Program.Triple.ret` — the same for outlines;
* `Program.invariant_of_wp`, `Program.Triple.invariant` — **soundness**: the invariant holds in
  every reachable state;
* `Program.reach_run` — a sequential run is one of the interleavings.
-/

import Mathlib.Logic.Relation

set_option relaxedAutoImplicit false
set_option autoImplicit false

/-- A signature: the operations a program may perform and the type of the answer to each. -/
structure OpSig where
  /-- The operations. -/
  Op : Type
  /-- The answers. -/
  Res : Op → Type

/-- Programs over a signature. -/
inductive Program (S : OpSig) (α : Type) : Type
  | ret (a : α) : Program S α
  | call (o : S.Op) (k : S.Res o → Program S α) : Program S α

namespace Program

variable {S : OpSig} {α β γ σ : Type}

/-! ### Sequencing -/

/-- Run `p`, then go on with its value. -/
def bind : Program S α → (α → Program S β) → Program S β
  | ret a, f => f a
  | call o k, f => call o fun r => bind (k r) f

instance : Monad (Program S) where
  pure := ret
  bind := bind

theorem bind_assoc (p : Program S α) (f : α → Program S β) (g : β → Program S γ) :
    p >>= f >>= g = p >>= fun a => f a >>= g := by
  induction p with
  | ret a => rfl
  | call o k ih => exact congrArg (call o) (funext fun r => ih r)

/-- A single operation. -/
def op (o : S.Op) : Program S (S.Res o) := call o ret

/-! ### Sequential runs -/

/-- The run of a program from a state, under a handler that answers each operation. -/
def run (h : (o : S.Op) → σ → S.Res o × σ) : Program S α → σ → α × σ
  | ret a, s => (a, s)
  | call o k, s => run h (k (h o s).1) (h o s).2

section Run

variable {h : (o : S.Op) → σ → S.Res o × σ}

/-- **The run of a sequence is the sequence of the runs.** -/
theorem run_bind (p : Program S α) (f : α → Program S β) (s : σ) :
    run h (p >>= f) s = run h (f (run h p s).1) (run h p s).2 := by
  induction p generalizing s with
  | ret a => rfl
  | call o k ih => exact ih (h o s).1 (h o s).2

/-- The operations that are performed in a run. -/
def calls (h : (o : S.Op) → σ → S.Res o × σ) : Program S α → σ → List S.Op
  | ret _, _ => []
  | call o k, s => o :: calls h (k (h o s).1) (h o s).2

/-- **The operations of a sequence are those of its parts.** -/
theorem calls_bind (p : Program S α) (f : α → Program S β) (s : σ) :
    calls h (p >>= f) s = calls h p s ++ calls h (f (run h p s).1) (run h p s).2 := by
  induction p generalizing s with
  | ret a => rfl
  | call o k ih => exact congrArg (List.cons o) (ih (h o s).1 (h o s).2)

end Run

/-- Whatever it is answered, the program performs only operations of the given kind. -/
def Only (P : S.Op → Prop) : Program S α → Prop
  | ret _ => True
  | call o k => P o ∧ ∀ r, Only P (k r)

section Only

variable {P : S.Op → Prop}

theorem Only.bind {p : Program S α} {f : α → Program S β} (hp : Only P p)
    (hf : ∀ a, Only P (f a)) : Only P (p >>= f) := by
  induction p with
  | ret a => exact hf a
  | call o k ih => exact ⟨hp.1, fun r => ih r (hp.2 r)⟩

theorem Only.ite {c : Prop} [Decidable c] {p q : Program S α} (hp : Only P p) (hq : Only P q) :
    Only P (if c then p else q) := by
  by_cases hc : c
  · rw [if_pos hc]
    exact hp
  · rw [if_neg hc]
    exact hq

/-- **The operations of a run are of the kind the program is restricted to.** -/
theorem Only.of_mem_calls {h : (o : S.Op) → σ → S.Res o × σ} {p : Program S α} (hp : Only P p)
    {s : σ} {o : S.Op} (ho : o ∈ calls h p s) : P o := by
  induction p generalizing s with
  | ret a => cases ho
  | call o' k ih =>
      rcases List.mem_cons.1 ho with rfl | ho
      · exact hp.1
      · exact ih _ (hp.2 _) ho

end Only

/-! ### Interleaved semantics -/

end Program

/-- What operations may answer and do, and what the environment may do on its own. -/
structure Semantics (S : OpSig) (σ : Type) where
  /-- `act o s r s'`: in state `s` the operation `o` may be answered by `r`, leaving `s'`. -/
  act : (o : S.Op) → σ → S.Res o → σ → Prop
  /-- A step of the environment, possible between any two operations. -/
  env : σ → σ → Prop

namespace Program

variable {S : OpSig} {α β γ σ : Type}

/-- One step of a program running next to its environment: either of the two moves. -/
inductive Step (M : Semantics S σ) : Program S α × σ → Program S α × σ → Prop
  | act {o : S.Op} {k : S.Res o → Program S α} {s s' : σ} {r : S.Res o} :
      M.act o s r s' → Step M (call o k, s) (k r, s')
  | env {p : Program S α} {s s' : σ} : M.env s s' → Step M (p, s) (p, s')

/-- What is reachable by any interleaving. -/
def Reach (M : Semantics S σ) : Program S α × σ → Program S α × σ → Prop :=
  Relation.ReflTransGen (Step M)

/-- What the environment may have done between two operations. -/
def Rely (M : Semantics S σ) : σ → σ → Prop := Relation.ReflTransGen M.env

/-- The states from which `p` keeps `I` at every point of every interleaving, and `Q` holds of its
value and the state once it has ended. -/
def wp (M : Semantics S σ) (I : σ → Prop) : Program S α → (α → σ → Prop) → σ → Prop
  | ret a, Q, s => ∀ s', Rely M s s' → I s' ∧ Q a s'
  | call o k, Q, s =>
      ∀ s', Rely M s s' → I s' ∧ ∀ r s'', M.act o s' r s'' → wp M I (k r) Q s''

section Wp

variable {M : Semantics S σ} {I : σ → Prop}

/-- The environment cannot falsify a `wp`. -/
theorem wp_rely {p : Program S α} {Q : α → σ → Prop} {s s' : σ} (h : wp M I p Q s)
    (hs : Rely M s s') : wp M I p Q s' := by
  cases p with
  | ret a => exact fun t ht => h t (Relation.ReflTransGen.trans hs ht)
  | call o k => exact fun t ht => h t (Relation.ReflTransGen.trans hs ht)

/-- The invariant holds wherever a `wp` does. -/
theorem wp_invariant {p : Program S α} {Q : α → σ → Prop} {s : σ} (h : wp M I p Q s) : I s := by
  cases p with
  | ret a => exact (h s Relation.ReflTransGen.refl).1
  | call o k => exact (h s Relation.ReflTransGen.refl).1

/-- Consequence. -/
theorem wp_mono {p : Program S α} {Q R : α → σ → Prop} (hQR : ∀ a s, Q a s → R a s) {s : σ}
    (h : wp M I p Q s) : wp M I p R s := by
  induction p generalizing s with
  | ret a => exact fun s' hs => ⟨(h s' hs).1, hQR a s' (h s' hs).2⟩
  | call o k ih => exact fun s' hs => ⟨(h s' hs).1, fun r s'' ha => ih r ((h s' hs).2 r s'' ha)⟩

/-- Sequencing. -/
theorem wp_bind {p : Program S α} {f : α → Program S β} {Q : β → σ → Prop} {s : σ}
    (h : wp M I p (fun a s' => wp M I (f a) Q s') s) : wp M I (p >>= f) Q s := by
  induction p generalizing s with
  | ret a => exact (h s Relation.ReflTransGen.refl).2
  | call o k ih => exact fun s' hs => ⟨(h s' hs).1, fun r s'' ha => ih r ((h s' hs).2 r s'' ha)⟩

/-- An assertion the environment cannot falsify. -/
def Stable (M : Semantics S σ) (J : σ → Prop) : Prop := ∀ s s', J s → M.env s s' → J s'

theorem Stable.rely {J : σ → Prop} (hJ : Stable M J) {s s' : σ} (h : J s) (hs : Rely M s s') :
    J s' := by
  induction hs with
  | refl => exact h
  | tail _ he ih => exact hJ _ _ ih he

/-- Proof outline, one operation: an assertion that the environment cannot falsify, that entails
the invariant, and from which every answer leads on. -/
theorem wp_call_of_stable {J : σ → Prop} (hJ : Stable M J) {o : S.Op}
    {k : S.Res o → Program S α} {Q : α → σ → Prop} {s : σ} (h : J s) (hI : ∀ s, J s → I s)
    (hk : ∀ s r s', J s → M.act o s r s' → wp M I (k r) Q s') : wp M I (call o k) Q s :=
  fun s' hs => ⟨hI s' (hJ.rely h hs), fun r s'' ha => hk s' r s'' (hJ.rely h hs) ha⟩

/-- Proof outline, the end of a program. -/
theorem wp_ret_of_stable {J : σ → Prop} (hJ : Stable M J) {a : α} {Q : α → σ → Prop} {s : σ}
    (h : J s) (hI : ∀ s, J s → I s) (hQ : ∀ s, J s → Q a s) : wp M I (ret a : Program S α) Q s :=
  fun s' hs => ⟨hI s' (hJ.rely h hs), hQ s' (hJ.rely h hs)⟩

/-- One step of the interleaving keeps a `wp`. -/
theorem wp_step {Q : α → σ → Prop} {c c' : Program S α × σ} (hs : Step M c c')
    (h : wp M I c.1 Q c.2) : wp M I c'.1 Q c'.2 := by
  cases hs with
  | act ha => exact (h _ Relation.ReflTransGen.refl).2 _ _ ha
  | env he => exact wp_rely h (Relation.ReflTransGen.single he)

theorem wp_reach {Q : α → σ → Prop} {c c' : Program S α × σ} (hr : Reach M c c')
    (h : wp M I c.1 Q c.2) : wp M I c'.1 Q c'.2 := by
  induction hr with
  | refl => exact h
  | tail _ hs ih => exact wp_step hs ih

/-- **Soundness, the invariant**: it holds in every reachable state. -/
theorem invariant_of_wp {p p' : Program S α} {Q : α → σ → Prop} {s s' : σ} (h : wp M I p Q s)
    (hr : Reach M (p, s) (p', s')) : I s' :=
  wp_invariant (wp_reach hr h)

end Wp

/-! ### Proof outlines -/

/-- An assertion of a proof outline: the environment cannot falsify it, and it entails the
invariant. -/
structure Assertion (M : Semantics S σ) (I : σ → Prop) where
  /-- The states it describes. -/
  Holds : σ → Prop
  /-- It is stable. -/
  stable : Stable M Holds
  /-- It is safe. -/
  safe : ∀ s, Holds s → I s

/-- A fact about values that were read, added to an assertion. -/
def Assertion.given {M : Semantics S σ} {I : σ → Prop} (φ : Prop) (J : Assertion M I) :
    Assertion M I where
  Holds := fun s => φ ∧ J.Holds s
  stable := fun s s' h he => ⟨h.1, J.stable s s' h.2 he⟩
  safe := fun s h => J.safe s h.2

/-- The program leads from the first assertion to the second, and keeps the invariant on its way. -/
def Triple {M : Semantics S σ} {I : σ → Prop} (J : Assertion M I) (p : Program S α)
    (K : α → Assertion M I) : Prop :=
  ∀ s, J.Holds s → wp M I p (fun a => (K a).Holds) s

section Triple

variable {M : Semantics S σ} {I : σ → Prop} {J : Assertion M I}

theorem Triple.ret {a : α} {K : α → Assertion M I} (h : ∀ s, J.Holds s → (K a).Holds s) :
    Triple J (Program.ret a) K :=
  fun _ hs => wp_ret_of_stable J.stable hs J.safe h

theorem Triple.op {o : S.Op} {K : S.Res o → Assertion M I}
    (h : ∀ s r s', J.Holds s → M.act o s r s' → (K r).Holds s') : Triple J (Program.op o) K := by
  intro s hs
  refine wp_call_of_stable J.stable hs J.safe fun s r s' hJ ha => ?_
  exact wp_ret_of_stable (K r).stable (h s r s' hJ ha) (K r).safe fun _ hK => hK

theorem Triple.bind {p : Program S α} {f : α → Program S β} {K : α → Assertion M I}
    {L : β → Assertion M I} (hp : Triple J p K) (hf : ∀ a, Triple (K a) (f a) L) :
    Triple J (p >>= f) L :=
  fun s hs => wp_bind (wp_mono (fun a s' hK => hf a s' hK) (hp s hs))

/-- What is given may be used. -/
theorem Triple.of_given {φ : Prop} {p : Program S α} {K : α → Assertion M I}
    (hp : φ → Triple J p K) : Triple (J.given φ) p K :=
  fun s hs => hp hs.1 s hs.2

/-- **Soundness of proof outlines.** -/
theorem Triple.invariant {p p' : Program S α} {K : α → Assertion M I} (hp : Triple J p K)
    {s s' : σ} (hs : J.Holds s) (hr : Reach M (p, s) (p', s')) : I s' :=
  invariant_of_wp (hp s hs) hr

end Triple

/-- **A sequential run is one of the interleavings**, when the handler's answers are among the
allowed ones, and what it does besides is done by the environment. -/
theorem reach_run {M : Semantics S σ} {h : (o : S.Op) → σ → S.Res o × σ}
    (hh : ∀ o s, ∃ s', M.act o s (h o s).1 s' ∧ Rely M s' (h o s).2) (p : Program S α) (s : σ) :
    Reach M (p, s) (ret (run h p s).1, (run h p s).2) := by
  induction p generalizing s with
  | ret a => exact Relation.ReflTransGen.refl
  | call o k ih =>
      obtain ⟨s', hact, henv⟩ := hh o s
      have hrely : Reach M (k (h o s).1, s') (k (h o s).1, (h o s).2) :=
        henv.lift (fun t => (k (h o s).1, t)) fun _ _ ht => Step.env ht
      exact Relation.ReflTransGen.head (Step.act hact) (hrely.trans (ih _ _))

end Program

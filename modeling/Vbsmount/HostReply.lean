/-
**The reply of the host to a request for a service.**

A host may complete a request while the guest writes to the port, or promise to do so and mark the
request as done during one of the delays that the guest grants it.  What it replies is stated here
without the code that waits for it.

Main definitions:

* `VmmDev.delayed` — what the host makes of the shared memory in a number of delays;
* `VmmDev.Replies` — what the host replies, at once or within the time granted to it;
* `VmmDev.sent` — what the write to the port leaves of a request.

Main results:

* `VmmDev.waitDone_cases` — the waiting loop ends with the first delay behind which the request is
  done;
* `VmmDev.sendHGCMRequest_cases` — **`VBoxAuxSendHGCMRequest` succeeds with the reply of the host, and
  fails without one**;
* `VmmDev.Replies.unique`, `VmmDev.forall_replies_iff` — there is one reply at most, and what holds of
  it holds behind a request that succeeds.
-/

import Vbsmount.VmmDev

set_option relaxedAutoImplicit false
set_option autoImplicit false

namespace Vbsmount

namespace VmmDev

open Bytes

/-! ### Replies -/

/-- The result in the header of a request. -/
def Shared.rc (s : Shared) : BitVec 16 := (s.request.get32 offRc).setWidth 16

/-- The result of the service, as the guest takes it. -/
def Shared.result (s : Shared) : BitVec 16 := (s.request.get32 offResult).setWidth 16

/-- The host has marked the request as done. -/
def Shared.Done (s : Shared) : Prop := s.request.get32 offFlags &&& 1 ≠ 0

/-- What the host makes of the shared memory in a number of delays, the first one at the given
turn. -/
def delayed (host : Host) (turn : ℕ) : ℕ → Shared → Shared
  | 0, s => s
  | k + 1, s => delayed host (turn + 1) k (host.onDelay turn s)

/-- The replies of a host to a request, where `sent` is what the write to the port has left: the
request is completed at once, or it is marked as done in the first of the delays that are granted. -/
inductive Replies (host : Host) (turn : ℕ) (sent : Shared) : Shared → Prop
  | atOnce (hrc : sent.rc = vinfSuccess) : Replies host turn sent sent
  | later (k : ℕ) (hrc : sent.rc = vinfHgcmAsyncExecute) (hk : k < asyncTimeout)
      (hdone : (delayed host turn (k + 1) sent).Done)
      (hfirst : ∀ j < k, ¬ (delayed host turn (j + 1) sent).Done) :
      Replies host turn sent (delayed host turn (k + 1) sent)

/-! ### Sending and waiting -/

section Send

variable (e : Env) (lay : Layout) (m : Machine)

/-- What the write to the port leaves of a request to a service. -/
def sent (pciPort type size : BitVec 16) : Shared :=
  let block := withHeader type size
    ((m.shared.request.put32 offFlags 0).put32 offResult (vinfSuccess.signExtend 32))
  e.host.onOut m.turn ⟨pciPort, mkLinear m.s lay.request, block⟩ { m.shared with request := block }

/-- The waiting loop ends with the first delay behind which the request is done. -/
theorem waitDone_cases (left : ℕ) :
    (value e (waitDone left) m = true ∧ ∃ k < left,
      (after e (waitDone left) m).shared = delayed e.host m.turn (k + 1) m.shared ∧
      (delayed e.host m.turn (k + 1) m.shared).Done ∧
      ∀ j < k, ¬ (delayed e.host m.turn (j + 1) m.shared).Done) ∨
    (value e (waitDone left) m = false ∧
      ∀ j < left, ¬ (delayed e.host m.turn (j + 1) m.shared).Done) := by
  induction left generalizing m with
  | zero => exact Or.inr ⟨rfl, fun j hj => absurd hj j.not_lt_zero⟩
  | succ left ih =>
      have hstep : Program.run (handle e) (waitDone (left + 1)) m =
          Program.run (handle e) (if (after e delay m).shared.request.get32 offFlags &&& 1 ≠ 0 then
            pure true else waitDone left) (after e delay m) := rfl
      rw [value, after, hstep]
      by_cases hdone : (after e delay m).shared.request.get32 offFlags &&& 1 ≠ 0
      · rw [if_pos hdone]
        exact Or.inl ⟨rfl, 0, left.succ_pos, rfl, hdone, fun j hj => absurd hj j.not_lt_zero⟩
      · rw [if_neg hdone]
        rcases ih (after e delay m) with ⟨hvalue, k, hk, hafter, hlast, hfirst⟩ | ⟨hvalue, hnever⟩
        · refine Or.inl ⟨hvalue, k + 1, Nat.succ_lt_succ hk, hafter, hlast, fun j hj => ?_⟩
          cases j with
          | zero => exact hdone
          | succ j => exact hfirst j (Nat.lt_of_succ_lt_succ hj)
        · refine Or.inr ⟨hvalue, fun j hj => ?_⟩
          cases j with
          | zero => exact hdone
          | succ j => exact hnever j (Nat.lt_of_succ_lt_succ hj)

/-- **`VBoxAuxSendHGCMRequest` succeeds with the reply of the host, and fails without one.** -/
theorem sendHGCMRequest_cases (pciPort type size : BitVec 16) :
    (value e (vboxAuxSendHGCMRequest lay pciPort type size) m = vinfSuccess ∧
      Replies e.host (m.turn + 1) (sent e lay m pciPort type size)
        (after e (vboxAuxSendHGCMRequest lay pciPort type size) m).shared) ∨
    (value e (vboxAuxSendHGCMRequest lay pciPort type size) m ≠ vinfSuccess ∧
      ∀ s, ¬ Replies e.host (m.turn + 1) (sent e lay m pciPort type size) s) := by
  rw [vboxAuxSendHGCMRequest, value_bind, after_bind, value_bind, after_bind, value_bind, after_bind]
  generalize hm₁ : after e (store32 offResult (vinfSuccess.signExtend 32))
    (after e (store32 offFlags 0) m) = m₁
  have hshared : (after e (vboxAuxSendRequest lay pciPort type size) m₁).shared =
      sent e lay m pciPort type size := by rw [← hm₁]; rfl
  have hturn : (after e (vboxAuxSendRequest lay pciPort type size) m₁).turn = m.turn + 1 := by
    rw [← hm₁]; rfl
  have hret : value e (vboxAuxSendRequest lay pciPort type size) m₁ =
      (sent e lay m pciPort type size).rc := by rw [← hm₁]; rfl
  rw [hret]
  generalize after e (vboxAuxSendRequest lay pciPort type size) m₁ = m₂ at hshared hturn
  generalize sent e lay m pciPort type size = s at hshared
  split_ifs with hfailed hasync
  · refine Or.inr ⟨hfailed.1, fun s' hs' => ?_⟩
    cases hs' with
    | atOnce hrc => exact hfailed.1 hrc
    | later k hrc => exact hfailed.2 hrc
  · rw [value_bind, after_bind]
    rcases waitDone_cases e m₂ asyncTimeout with
      ⟨hdone, k, hk, hafter, hlast, hfirst⟩ | ⟨hdone, hnever⟩
    · rw [hshared, hturn] at hafter hlast hfirst
      rw [hdone, if_pos rfl]
      exact Or.inl ⟨rfl, hafter ▸ Replies.later k hasync hk hlast hfirst⟩
    · -- the request is given up
      rw [hshared, hturn] at hnever
      rw [hdone, if_neg Bool.false_ne_true]
      have hne : verrTimeout ≠ vinfSuccess := by decide
      refine Or.inr ⟨hne, fun s' hs' => ?_⟩
      cases hs' with
      | atOnce hrc => exact absurd (hrc.symm.trans hasync) (by decide)
      | later k _ hk hlast => exact hnever k hk hlast
  · have hrc : s.rc = vinfSuccess := by
      by_contra hne
      exact hfailed ⟨hne, hasync⟩
    refine Or.inl ⟨rfl, ?_⟩
    rw [show (after e (pure vinfSuccess) m₂).shared = s from hshared]
    exact Replies.atOnce hrc

/-- There is one reply at most. -/
theorem Replies.unique {host : Host} {turn : ℕ} {first s s' : Shared} (hs : Replies host turn first s)
    (hs' : Replies host turn first s') : s = s' := by
  cases hs with
  | atOnce hrc =>
      cases hs' with
      | atOnce => rfl
      | later k hrc' => exact absurd (hrc.symm.trans hrc') (by decide)
  | later k hrc hk hdone hfirst =>
      cases hs' with
      | atOnce hrc' => exact absurd (hrc'.symm.trans hrc) (by decide)
      | later k' hrc' hk' hdone' hfirst' =>
          -- both are the first delay behind which the request is done
          rcases Nat.lt_trichotomy k k' with hlt | rfl | hgt
          · exact absurd hdone (hfirst' k hlt)
          · rfl
          · exact absurd hdone' (hfirst k' hgt)

/-- What holds of the host's reply holds of the shared memory behind a request that succeeds. -/
theorem forall_replies_iff (pciPort type size : BitVec 16) {P : Shared → Prop} :
    (∀ s, Replies e.host (m.turn + 1) (sent e lay m pciPort type size) s → P s) ↔
      (value e (vboxAuxSendHGCMRequest lay pciPort type size) m = vinfSuccess →
        P (after e (vboxAuxSendHGCMRequest lay pciPort type size) m).shared) := by
  rcases sendHGCMRequest_cases e lay m pciPort type size with ⟨hret, hreply⟩ | ⟨hret, hnone⟩
  · constructor
    · intro h _
      exact h _ hreply
    · intro h s hs
      rw [hs.unique hreply]
      exact h hret
  · exact iff_of_true (fun s hs => absurd hs (hnone s)) fun h => absurd h hret

end Send

end VmmDev

end Vbsmount

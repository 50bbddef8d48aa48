/-
**How long a run of `main` waits, what it leaves alone, and what it does not depend on.**

A request to a service is given up after a number of delays, and a cancellation is not waited for.
So the delays of a run are bounded by its writes to the port, and these by the names it asks for:
the number of the shares, as the host reports it, is the only thing that keeps a run from ending.

Main definitions:

* `Prices`, `Prices.weight` — weights for delays, for writes and for names, and what they have to
  satisfy;
* `countOps` — how many operations of a kind a run performs;
* `AgreesOnSuccess` — programs that differ at most in what they return next to `FAIL`.

Main results:

* `cover_main` — the weights of the operations on every path through `main`;
* `main_waits` — **the delays of a run are bounded by its writes, and these by the names it asks
  for**;
* `main_dos` — **a run leaves DOS, the vector and the resident copy as they are**;
* `main_locals` — **the uninitialised locals are never used**.
-/

import Vbsmount.Lib.Cost
import Vbsmount.Conversation

set_option relaxedAutoImplicit false
set_option autoImplicit false

namespace Vbsmount

open VmmDev

/-! ### Weights -/

/-- Weights for a delay, for a write to the port and for a name that has been asked for, and bounds
for a request and for a request to a service with its cancellation.  A name pays for its request. -/
structure Prices where
  delay : ℤ
  write : ℤ
  name : ℤ
  single : ℤ
  service : ℤ
  delay_nonneg : 0 ≤ delay
  single_nonneg : 0 ≤ single
  service_nonneg : 0 ≤ service
  write_le : write ≤ single
  once_le : write + asyncTimeout * delay ≤ service
  twice_le : 2 * write + asyncTimeout * delay ≤ service
  name_le : service + name ≤ 0

/-- The weights of the operations. -/
def Prices.weight (c : Prices) : Op → ℤ
  | .delay => c.delay
  | .outpd .. => c.write
  | .mark (.gotMapName _) => c.name
  | _ => 0

/-- What the operations of the code weigh at most. -/
abbrev Prices.Cover (c : Prices) {α : Type} (p : Code α) (n : ℤ) : Prop :=
  Program.Costs (S := ops) c.weight p n

section Costs

variable {α β : Type} {c : Prices} {lay : Layout} {port : BitVec 16} {clientId : BitVec 32}

/-- An operation without weight, in front of others. -/
theorem cover_call {o : Op} {k : ops.Res o → Code α} {n : ℤ} (h : c.weight o = 0)
    (hk : ∀ r, c.Cover (k r) n) : c.Cover (Program.call o k) n := by
  intro r
  rw [h, sub_zero]
  exact hk r

theorem cover_op {o : Op} {f : ops.Res o → Code β} {n : ℤ} (h : c.weight o = 0)
    (hf : ∀ r, c.Cover (f r) n) : c.Cover (Program.op (S := ops) o >>= f) n :=
  cover_call h hf

/-- Code of a known weight, with a bound for what comes behind it. -/
theorem cover_bind {p : Code α} {f : α → Code β} {n n' : ℤ} (hp : c.Cover p n)
    (hf : ∀ a, c.Cover (f a) (n' - n)) : c.Cover (p >>= f) n' :=
  (Program.Costs.bind hp hf).mono (add_sub_cancel n n').le

theorem cover_sendRequest (type size : BitVec 16) :
    c.Cover (vboxAuxSendRequest lay port type size) c.write := by
  iterate 5 refine cover_call rfl fun _ => ?_
  intro _
  exact cover_call rfl fun _ => (sub_self c.write).ge

theorem cover_waitDone (left : ℕ) : c.Cover (waitDone left) (left * c.delay) := by
  induction left with
  | zero => exact mul_nonneg (Nat.cast_nonneg 0) c.delay_nonneg
  | succ left ih =>
      have hrest : ((left + 1 : ℕ) : ℤ) * c.delay - c.delay = left * c.delay := by
        push_cast
        ring
      intro _
      change c.Cover _ (((left + 1 : ℕ) : ℤ) * c.delay - c.delay)
      rw [hrest]
      refine cover_call rfl fun _ => Program.Costs.ite ?_ ih
      exact mul_nonneg (Nat.cast_nonneg left) c.delay_nonneg

/-- **A request to a service**: it is sent, waited for, and cancelled. -/
theorem cover_sendHGCMRequest (type size : BitVec 16) :
    c.Cover (vboxAuxSendHGCMRequest lay port type size) c.service := by
  have hwait : 0 ≤ asyncTimeout * c.delay := mul_nonneg (Nat.cast_nonneg _) c.delay_nonneg
  have honce := c.once_le
  have htwice := c.twice_le
  refine cover_op rfl fun _ => cover_op rfl fun _ => ?_
  refine cover_bind (cover_sendRequest type size) fun ret => ?_
  refine Program.Costs.ite (Program.Costs.ret (by linarith)) (Program.Costs.ite ?_ ?_)
  · refine cover_bind (cover_waitDone asyncTimeout) fun done => Program.Costs.ite ?_ ?_
    · exact Program.Costs.ret (by linarith)
    · refine cover_op rfl fun _ => cover_bind (cover_sendRequest _ _) fun _ => ?_
      exact Program.Costs.ret (by linarith)
  · exact Program.Costs.ret (by linarith)

theorem cover_beginSession (clientId : BitVec 32) :
    c.Cover (vboxAuxBeginSession lay port clientId) c.service := by
  have hend {α : Type} (a : α) : c.Cover (Program.ret a) (c.service - c.service) :=
    (sub_self c.service).ge
  refine cover_op rfl fun _ => cover_op rfl fun _ => ?_
  refine cover_bind (cover_sendHGCMRequest _ _) fun ret => Program.Costs.ite ?_ (hend _)
  exact cover_op rfl fun _ => Program.Costs.ite (cover_op rfl fun _ => hend _) (hend _)

theorem cover_endSession : c.Cover (vboxAuxEndSession lay port clientId) c.service :=
  cover_op rfl fun _ => cover_bind (cover_sendHGCMRequest _ _) fun _ =>
    Program.Costs.ret (sub_self c.service).ge

theorem cover_shflGetMappings (numMappings : BitVec 32) :
    c.Cover (vboxAuxShflGetMappings lay port clientId numMappings) c.service := by
  have hend {α : Type} (a : α) : c.Cover (Program.ret a) (c.service - c.service) :=
    (sub_self c.service).ge
  iterate 11 refine cover_op rfl fun _ => ?_
  refine cover_bind (cover_sendHGCMRequest _ _) fun ret => Program.Costs.ite ?_ (hend _)
  exact cover_op rfl fun _ => Program.Costs.ite (cover_op rfl fun _ => hend _) (hend _)

theorem cover_shflGetMapName (root ptrSize : BitVec 32) :
    c.Cover (vboxAuxShflGetMapName lay port clientId root ptrSize) c.service := by
  have hend {α : Type} (a : α) : c.Cover (Program.ret a) (c.service - c.service) :=
    (sub_self c.service).ge
  iterate 9 refine cover_op rfl fun _ => ?_
  refine cover_bind (cover_sendHGCMRequest _ _) fun ret => Program.Costs.ite ?_ (hend _)
  exact cover_op rfl fun _ => hend _

/-- **The loop over the mappings costs nothing**: each name pays for its request. -/
theorem cover_mappingLoop (left mapping : ℕ) (ret : BitVec 16) :
    c.Cover (mappingLoop lay port clientId left mapping ret) 0 := by
  induction left generalizing mapping ret with
  | zero => exact Program.Costs.ret le_rfl
  | succ left ih =>
      have hname := c.name_le
      refine cover_op rfl fun root => cover_bind (cover_shflGetMapName root 262) fun ret _ => ?_
      exact (ih (mapping + 1) ret).mono (by change 0 ≤ 0 - c.service - c.name; linarith)

theorem cover_listShares : c.Cover (listShares lay port clientId) (2 * c.service) := by
  have hlabel (ret : BitVec 16) : c.Cover (errorLabel lay port clientId ret) c.service :=
    cover_bind cover_endSession fun _ => Program.Costs.ret (sub_self c.service).ge
  refine cover_bind (cover_shflGetMappings shflMaxMappings) fun out => ?_
  have hleft : 2 * c.service - c.service = c.service := by ring
  rw [hleft]
  refine cover_op rfl fun _ => Program.Costs.ite (hlabel errNoShf) ?_
  refine cover_bind (cover_mappingLoop _ 0 _) fun ret => ?_
  rw [sub_zero]
  exact hlabel ret

theorem cover_single (type size : BitVec 16) :
    c.Cover (vboxAuxSendRequest lay port type size) c.single :=
  (cover_sendRequest type size).mono c.write_le

theorem cover_reportGuest : c.Cover (reportGuest lay port) (2 * c.single) := by
  have hsingle := c.single_nonneg
  have hend {n : ℤ} (hn : 0 ≤ n) (ret : BitVec 16) :
      c.Cover (if ret ≠ vinfSuccess then Program.ret fail else Program.ret ok) n :=
    Program.Costs.ite (Program.Costs.ret hn) (Program.Costs.ret hn)
  have hinfo2 : c.Cover (vboxAuxReportGuestInfo2 lay port) c.single := by
    iterate 6 refine cover_op rfl fun _ => ?_
    exact cover_single _ _
  have hinfo : c.Cover (vboxAuxReportGuestInfo lay port) c.single := by
    iterate 2 refine cover_op rfl fun _ => ?_
    exact cover_single _ _
  refine cover_bind hinfo2 fun ret => Program.Costs.ite ?_ ?_
  · exact cover_bind hinfo fun ret => hend (by linarith) ret
  · exact hend (by linarith) ret

/-- The BIOS costs nothing, the reports and the version are single requests. -/
theorem cover_initVirtual (pciPort : BitVec 16) :
    c.Cover (vboxAuxInitVirtual lay pciPort) (3 * c.single) := by
  have hsingle := c.single_nonneg
  have hinit : c.Cover (vboxAuxVBoxBackdoorInit lay pciPort) (2 * c.single) := by
    have hret (out : BitVec 16 × BitVec 16) : c.Cover (Program.ret out) (2 * c.single) :=
      Program.Costs.ret (by linarith)
    have hcheck : c.Cover pciCheck 0 := cover_op rfl fun _ =>
      Program.Costs.ite (Program.Costs.ret le_rfl) (Program.Costs.ret le_rfl)
    have hiobase (bus devFunc : BitVec 8) : c.Cover (pciGetIobase bus devFunc pciPort) 0 :=
      cover_op rfl fun _ => Program.Costs.ite (Program.Costs.ret le_rfl) (Program.Costs.ret le_rfl)
    refine cover_bind hcheck fun maxbus => ?_
    rw [sub_zero]
    refine Program.Costs.ite (hret _) (cover_op rfl fun device => Program.Costs.ite (hret _) ?_)
    refine cover_bind (hiobase _ _) fun out => ?_
    rw [sub_zero]
    refine Program.Costs.ite (hret _) (cover_bind cover_reportGuest fun ret => ?_)
    exact Program.Costs.ret (sub_self _).ge
  refine cover_op rfl fun _ => cover_bind hinit fun out => ?_
  refine Program.Costs.ite (Program.Costs.ret (by linarith)) ?_
  refine cover_bind (?_ : c.Cover _ c.single) fun ret => Program.Costs.ret (by linarith)
  refine cover_bind (cover_single _ _) fun ret => Program.Costs.ite ?_ ?_
  · exact Program.Costs.ret (sub_self _).ge
  · exact Program.Costs.ret (sub_self _).ge

/-- **What the operations of `main` weigh.** -/
theorem cover_main (inv : Invocation) : c.Cover (main lay inv) (3 * c.single + 3 * c.service) := by
  have hsingle := c.single_nonneg
  have hservice := c.service_nonneg
  have hret (out : Outcome) : c.Cover (Program.ret out) (3 * c.single + 3 * c.service) :=
    Program.Costs.ret (by linarith)
  by_cases hsearches : inv.Searches
  · rw [main_of_searches hsearches]
    refine cover_op rfl fun dos => cover_op rfl fun _ => ?_
    cases (search dos).1 with
    | some session => exact cover_listShares.mono (by linarith)
    | none =>
        refine Program.Costs.ite (hret _) (Program.Costs.ite (hret _) ?_)
        refine cover_bind (cover_initVirtual _) fun out => Program.Costs.ite ?_ ?_
        · exact Program.Costs.ret (by linarith)
        · refine cover_bind (cover_beginSession _) fun out => Program.Costs.ite ?_ ?_
          · exact Program.Costs.ret (by linarith)
          · exact cover_op rfl fun _ => cover_listShares.mono (by linarith)
  · obtain ⟨out, hmain⟩ := main_of_not_searches lay hsearches
    rw [hmain]
    exact hret out

end Costs

/-! ### Delays, writes and names -/

def isDelay : Op → Bool
  | .delay => true
  | _ => false

def isWrite : Op → Bool
  | .outpd .. => true
  | _ => false

/-- A name has been asked for. -/
def isName : Op → Bool
  | .mark (.gotMapName _) => true
  | _ => false

/-- How many operations of a kind a run performs. -/
def countOps {α : Type} (q : Op → Bool) (e : Env) (p : Code α) (m : Machine) : ℕ :=
  (Program.calls (handle e) p m).countP q

theorem Prices.weight_eq (c : Prices) (o : Op) : c.weight o =
    c.delay * (isDelay o).toNat + c.write * (isWrite o).toNat + c.name * (isName o).toNat := by
  cases o with
  | mark k => cases k <;> simp [Prices.weight, isDelay, isWrite, isName]
  | _ => simp [Prices.weight, isDelay, isWrite, isName]

theorem sum_map_weight (c : Prices) (os : List Op) : (os.map c.weight).sum =
    c.delay * os.countP isDelay + c.write * os.countP isWrite + c.name * os.countP isName := by
  have hcons (q : Op → Bool) (o : Op) (os : List Op) :
      (o :: os).countP q = os.countP q + (q o).toNat := by
    rw [List.countP_cons]
    cases q o <;> rfl
  induction os with
  | nil => simp
  | cons o os ih =>
      rw [List.map_cons, List.sum_cons, ih, c.weight_eq, hcons, hcons, hcons]
      push_cast
      ring

/-- Each write pays for the delays behind it. -/
def waiting : Prices where
  delay := 1
  write := -asyncTimeout
  name := 0
  single := 0
  service := 0
  delay_nonneg := by decide
  single_nonneg := le_rfl
  service_nonneg := le_rfl
  write_le := by decide
  once_le := by decide
  twice_le := by decide
  name_le := le_rfl

/-- Each name pays for its request and the cancellation of that. -/
def writing : Prices where
  delay := 0
  write := 1
  name := -2
  single := 1
  service := 2
  delay_nonneg := le_rfl
  single_nonneg := by decide
  service_nonneg := by decide
  write_le := le_rfl
  once_le := by decide
  twice_le := by decide
  name_le := le_rfl

/-- **The delays of a run are bounded by its writes, and these by the names it asks for**, whatever
the host does: a request is waited for during 500 delays at most, and there are nine writes besides
those for the names. -/
theorem main_waits (e : Env) (lay : Layout) (inv : Invocation) (m : Machine) :
    countOps isDelay e (main lay inv) m ≤ asyncTimeout * countOps isWrite e (main lay inv) m ∧
      countOps isWrite e (main lay inv) m ≤ 9 + 2 * countOps isName e (main lay inv) m := by
  have hwaiting : waiting.Cover (main lay inv) 0 := cover_main inv
  have hwriting : writing.Cover (main lay inv) 9 := cover_main inv
  have hdelays := hwaiting.weight_le (handle e) m
  have hwrites := hwriting.weight_le (handle e) m
  rw [Program.weight, sum_map_weight] at hdelays hwrites
  simp only [waiting, writing, asyncTimeout] at hdelays hwrites
  simp only [countOps, asyncTimeout]
  omega

/-! ### DOS -/

/-- Programs whose results are the same next to `OK`, and for a caller who does not look at what is
returned next to `FAIL`. -/
def AgreesOnSuccess {α : Type} (p q : Code (BitVec 16 × α)) : Prop :=
  ∀ {β : Type} (f : BitVec 16 × α → Code β), (∀ a b, f (fail, a) = f (fail, b)) → p >>= f = q >>= f

theorem agreesOnSuccess_backdoorInit (lay : Layout) (p q : BitVec 16) :
    AgreesOnSuccess (vboxAuxVBoxBackdoorInit lay p) (vboxAuxVBoxBackdoorInit lay q) := by
  intro β f hf
  rw [vboxAuxVBoxBackdoorInit, vboxAuxVBoxBackdoorInit, Program.bind_assoc, Program.bind_assoc]
  refine bind_congr fun maxbus => ?_
  split_ifs
  · exact hf p q
  · rw [Program.bind_assoc, Program.bind_assoc]
    refine bind_congr fun device => ?_
    dsimp only
    split_ifs
    · exact hf p q
    · rw [pciGetIobase, pciGetIobase, Program.bind_assoc, Program.bind_assoc, Program.bind_assoc,
        Program.bind_assoc]
      refine bind_congr fun r => ?_
      split_ifs
      · exact hf p q
      · rfl

theorem agreesOnSuccess_initVirtual (lay : Layout) (p q : BitVec 16) :
    AgreesOnSuccess (vboxAuxInitVirtual lay p) (vboxAuxInitVirtual lay q) := by
  intro β f hf
  simp only [vboxAuxInitVirtual, Program.bind_assoc]
  refine bind_congr fun _ => ?_
  refine agreesOnSuccess_backdoorInit lay p q _ fun a b => ?_
  have hne : fail ≠ 0 := by decide
  dsimp only
  rw [if_pos hne, if_pos hne]
  exact hf a b

theorem agreesOnSuccess_beginSession (lay : Layout) (port : BitVec 16) (c c' : BitVec 32) :
    AgreesOnSuccess (vboxAuxBeginSession lay port c) (vboxAuxBeginSession lay port c') := by
  intro β f hf
  simp only [vboxAuxBeginSession, Program.bind_assoc]
  refine bind_congr fun _ => ?_
  refine bind_congr fun ret => ?_
  split_ifs
  · rw [Program.bind_assoc, Program.bind_assoc]
    refine bind_congr fun result => ?_
    split_ifs
    · rfl
    · exact hf c c'
  · exact hf c c'

theorem openSession_locals (lay : Layout) (inv : Invocation) (uninstall p : BitVec 16)
    (c : BitVec 32) : openSession lay { inv with pciPort := p, clientId := c } uninstall =
      openSession lay inv uninstall := by
  rw [openSession, openSession]
  split_ifs
  · rfl
  · rfl
  · -- neither the port nor the client id that is passed is looked at behind a failure
    refine (agreesOnSuccess_initVirtual lay p inv.pciPort _ fun a b => ?_).trans ?_
    · dsimp only
      rw [if_pos rfl, if_pos rfl]
    · refine bind_congr fun out => ?_
      dsimp only
      split_ifs
      · rfl
      · refine agreesOnSuccess_beginSession lay out.2 c inv.clientId _ fun a b => ?_
        dsimp only
        rw [if_pos rfl, if_pos rfl]

end Vbsmount

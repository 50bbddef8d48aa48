/-
**Requests to host services and the host that answers them, interleaved.**

All requests to the services of the host go through one block of memory.  The host may accept a
request and complete it later: it then writes the result and sets the flag that the guest polls for,
at any moment between two operations of the guest, or never.  The guest gives up after a while and
cancels the request.  This module runs any sequence of such requests next to any such host, and
shows that no completion is ever taken for that of another request.

Main definitions:

* `Hgcm.Sys` — the request block, the requests the host still has to complete, the results it has
  written, and a log of the calls;
* `Hgcm.Completes`, `Hgcm.PortWritten`, `Hgcm.semantics` — what the host may do: on its own, and
  when the port is written to;
* `Hgcm.callServices` — a sequence of calls of `VBoxAuxSendHGCMRequest`, each followed by the
  caller's look at the result;
* `Hgcm.CallLog.Right` — what the log of a call has to look like;
* `Hgcm.Idle`, `Hgcm.Open`, `Hgcm.Got`, `Hgcm.Cancelling`, `Hgcm.Cancelled`, `Hgcm.Returned` — the
  assertions of the proof outline.

Main results:

* `Hgcm.triple_sendHGCMRequest` — the outline of `VBoxAuxSendHGCMRequest`;
* `Hgcm.completions_never_confused` — **in every reachable state the log is right**.
-/

import Vbsmount.VmmDev

set_option relaxedAutoImplicit false
set_option autoImplicit false

namespace Vbsmount

namespace Hgcm

open Bytes VmmDev
open Program (Assertion Triple Stable)

/-! ### The system -/

/-- A request the host has accepted and still has to complete, with its address. -/
structure Pending where
  id : ℕ
  addr : BitVec 32
  deriving DecidableEq

/-- A request that has been sent: the write to the port and the `rc` the host has answered. -/
structure Sent where
  id : ℕ
  write : PortWrite
  rc : BitVec 16

/-- The log of a call: what the host still had to complete when it began, what was sent, and, after
it has returned, its value and the result the caller has read. -/
structure CallLog where
  outstanding : List Pending
  sent : List Sent
  returned : Option (BitVec 16 × BitVec 32)

/-- The guest's request block next to the host.  Requests are numbered in the order in which they
are sent; `answers` are the results the host has written, by number; the newest call comes first. -/
structure Sys where
  request : Mem
  nextId : ℕ
  pending : List Pending
  answers : ℕ → Option (BitVec 32)
  calls : List CallLog

/-- The guest stores a word. -/
def Sys.store (s : Sys) (o : ℕ) (v : BitVec 32) : Sys := { s with request := s.request.put32 o v }

/-! ### The host -/

/-- The host completes a request it has accepted: the result and the flag are written together.
What is in front of the flags stays; the fields behind the header may get values, too. -/
def Completes (s s' : Sys) : Prop :=
  ∃ q ∈ s.pending, ∃ request : Mem,
    (∀ i < offFlags, request i = s.request i) ∧
    request.get32 offFlags = s.request.get32 offFlags ||| 1 ∧
    s' = { s with
      request := request
      pending := s.pending.erase q
      answers := Function.update s.answers q.id (some (request.get32 offResult)) }

/-- The requests still to complete after a write to the port that was answered with `rc`: an
accepted one is added, and a cancellation removes all of its address. -/
def stillPending (s : Sys) (w : PortWrite) (rc : BitVec 16) : List Pending :=
  let pending := if rc = vinfHgcmAsyncExecute then s.pending ++ [⟨s.nextId, w.value⟩] else s.pending
  if w.type = reqHgcmCancel.signExtend 32 then pending.filter (·.addr ≠ w.value) else pending

/-- The guest writes to the port, and the host answers: any `rc` of 16 bits.  If it is
`VINF_SUCCESS`, the result has been written; if it is `VINF_HGCM_ASYNC_EXECUTE`, the flags have been
left alone.  The write is entered in the log. -/
def PortWritten (port : BitVec 16) (value : BitVec 32) (s s' : Sys) : Prop :=
  ∃ (rc : BitVec 16) (request : Mem),
    request.get32 offRc = rc.signExtend 32 ∧
    (rc = vinfHgcmAsyncExecute → request.get32 offFlags = s.request.get32 offFlags) ∧
    s' = {
      request := request
      nextId := s.nextId + 1
      pending := stillPending s ⟨port, value, s.request⟩ rc
      answers :=
        if rc = vinfSuccess then
          Function.update s.answers s.nextId (some (request.get32 offResult))
        else s.answers
      calls := s.calls.modifyHead fun c =>
        { c with sent := c.sent ++ [⟨s.nextId, ⟨port, value, s.request⟩, rc⟩] } }

/-- A mark is entered in the log. -/
def Marked : Mark → Sys → Sys
  | .callStarted, s => { s with calls := ⟨s.pending, [], none⟩ :: s.calls }
  | .callReturned ret result, s =>
      { s with calls := s.calls.modifyHead fun c => { c with returned := some (ret, result) } }
  | _, s => s

/-- The guest next to the host, with `s.ds` loaded. -/
def semantics (ds : BitVec 16) : Semantics ops Sys where
  act
    | .load32 o, s, r, s' => r = s.request.get32 o ∧ s' = s
    | .store16 o v, s, _, s' => s' = { s with request := s.request.put16 o v }
    | .store32 o v, s, _, s' => s' = s.store o v
    | .storeStr o bs, s, _, s' => s' = { s with request := s.request.write o bs }
    | .sDs, s, r, s' => r = ds ∧ s' = s
    | .outpd port value, s, _, s' => PortWritten port value s s'
    | .mark m, s, _, s' => s' = Marked m s
    | _, s, _, s' => s' = s
  env := Completes

/-! ### Sequences of calls -/

/-- The services that are called. -/
inductive Service
  | connect
  | disconnect
  | call

/-- The request type. -/
def Service.type : Service → BitVec 16
  | .connect => reqHgcmConnect
  | .disconnect => reqHgcmDisconnect
  | .call => reqHgcmCall

/-- A call: what the caller stores into the block, and what it passes on. -/
structure ServiceCall where
  fields : List (ℕ × List (BitVec 8))
  pciPort : BitVec 16
  service : Service
  size : BitVec 16

/-- The caller fills in its fields. -/
def storeFields : List (ℕ × List (BitVec 8)) → Code Unit
  | [] => return ()
  | (o, bs) :: fields => do
      storeStr o bs
      storeFields fields

/-- One call: the fields are filled in, the request is sent, and the result is read. -/
def callService (lay : Layout) (c : ServiceCall) : Code Unit := do
  mark .callStarted
  storeFields c.fields
  let ret ← vboxAuxSendHGCMRequest lay c.pciPort c.service.type c.size
  let result ← load32 offResult
  mark (.callReturned ret result)

/-- A sequence of calls. -/
def callServices (lay : Layout) : List ServiceCall → Code Unit
  | [] => return ()
  | c :: cs => do
      callService lay c
      callServices lay cs

/-! ### Right logs -/

/-- The cancellation of a request: of its address, on its port, and the request was none itself. -/
def Sent.Cancels (x q : Sent) : Prop :=
  x.write.type = reqHgcmCancel.signExtend 32 ∧ x.write.value = q.write.value ∧
    x.write.port = q.write.port ∧ q.write.type ≠ reqHgcmCancel.signExtend 32

/-- A call went right: nothing was outstanding when it began; if it returned success, one request
was sent and the result read is the one the host has written for it; if it ran into the timeout of
the polling loop, exactly one cancellation was sent, for that request. -/
def CallLog.Right (answers : ℕ → Option (BitVec 32)) (c : CallLog) : Prop :=
  c.outstanding = [] ∧ ∀ ret result, c.returned = some (ret, result) →
    (ret = vinfSuccess → ∃ q, c.sent = [q] ∧ answers q.id = some result) ∧
    (ret = verrTimeout → (∃ q, c.sent.head? = some q ∧ q.rc = vinfHgcmAsyncExecute) →
      ∃ q x, c.sent = [q, x] ∧ x.Cancels q)

/-- Logs of earlier calls: they are right, and their requests have numbers below `n`. -/
def Past (answers : ℕ → Option (BitVec 32)) (n : ℕ) (cs : List CallLog) : Prop :=
  ∀ c ∈ cs, c.Right answers ∧ ∀ q ∈ c.sent, q.id < n

/-- The invariant: all logs are right. -/
def Safe (s : Sys) : Prop := ∀ c ∈ s.calls, c.Right s.answers

/-- The result of a later request does not concern a call whose requests have smaller numbers. -/
theorem CallLog.Right.update {answers : ℕ → Option (BitVec 32)} {c : CallLog} {id : ℕ}
    {r : Option (BitVec 32)} (h : c.Right answers) (hid : ∀ q ∈ c.sent, q.id ≠ id) :
    c.Right (Function.update answers id r) := by
  refine ⟨h.1, fun ret result hret => ⟨fun hok => ?_, (h.2 ret result hret).2⟩⟩
  obtain ⟨q, hsent, hq⟩ := (h.2 ret result hret).1 hok
  refine ⟨q, hsent, ?_⟩
  rw [Function.update_of_ne (hid q (by rw [hsent]; exact List.mem_singleton_self q))]
  exact hq

theorem Past.update {answers : ℕ → Option (BitVec 32)} {n id : ℕ} {cs : List CallLog}
    {r : Option (BitVec 32)} (h : Past answers n cs) (hid : n ≤ id) :
    Past (Function.update answers id r) n cs := by
  intro c hc
  obtain ⟨hright, hlt⟩ := h c hc
  exact ⟨hright.update fun q hq => Nat.ne_of_lt ((hlt q hq).trans_le hid), hlt⟩

/-- What a write to the port answers does not concern earlier calls. -/
theorem Past.answered {answers : ℕ → Option (BitVec 32)} {n id : ℕ} {cs : List CallLog}
    {r : Option (BitVec 32)} (h : Past answers n cs) (hid : n ≤ id) (c : Prop) [Decidable c] :
    Past (if c then Function.update answers id r else answers) n cs := by
  split_ifs
  · exact h.update hid
  · exact h

theorem Past.mono {answers : ℕ → Option (BitVec 32)} {m n : ℕ} {cs : List CallLog}
    (h : Past answers m cs) (hmn : m ≤ n) : Past answers n cs :=
  fun c hc => ⟨(h c hc).1, fun q hq => ((h c hc).2 q hq).trans_le hmn⟩

/-- A call that is still running is right as long as nothing was outstanding when it began. -/
theorem safe_of_running {s : Sys} {sent : List Sent} {rest : List CallLog} {n : ℕ}
    (hcalls : s.calls = ⟨[], sent, none⟩ :: rest) (hrest : Past s.answers n rest) : Safe s := by
  intro c hc
  rw [hcalls] at hc
  cases hc with
  | head => exact ⟨rfl, fun ret result hret => by cases hret⟩
  | tail _ hc => exact (hrest c hc).1

/-! ### Assertions -/

section Assertions

variable {ds : BitVec 16}

/-- Where the host has nothing to complete, it does nothing. -/
theorem not_completes {s s' : Sys} (h : s.pending = []) : ¬ Completes s s' := by
  rintro ⟨q, hq, -⟩
  rw [h] at hq
  cases hq

theorem stable_of_quiet {J : Sys → Prop} (h : ∀ s, J s → s.pending = []) :
    Stable (semantics ds) J :=
  fun s _ hJ hs => absurd hs (not_completes (h s hJ))

/-- Between two calls. -/
def Idle (s : Sys) : Prop := s.pending = [] ∧ Past s.answers s.nextId s.calls

/-- A call has begun and has sent nothing yet; `P` is known of the request block. -/
def Open (P : Mem → Prop) (s : Sys) : Prop :=
  s.pending = [] ∧ P s.request ∧
    ∃ rest, s.calls = ⟨[], [], none⟩ :: rest ∧ Past s.answers s.nextId rest

/-- A call is running that has sent `q` through the port, and then `more`. -/
structure Running (pciPort : BitVec 16) (addr : BitVec 32) (q : Sent) (more : List Sent) (s : Sys) :
    Prop where
  calls : ∃ rest, s.calls = ⟨[], q :: more, none⟩ :: rest ∧ Past s.answers q.id rest
  id_lt : ∀ x ∈ q :: more, q.id ≤ x.id ∧ x.id < s.nextId
  port : q.write.port = pciPort
  value : q.write.value = addr
  type : q.write.type ≠ reqHgcmCancel.signExtend 32

/-- The host has accepted `q` and has either not completed it, with the flag clear, or completed it,
with the flag set and its result in the block. -/
def Completing (q : Sent) (s : Sys) : Prop :=
  (s.pending = [⟨q.id, q.write.value⟩] ∧ s.request.get32 offFlags &&& 1 = 0) ∨
    (s.pending = [] ∧ s.request.get32 offFlags &&& 1 ≠ 0 ∧
      s.answers q.id = some (s.request.get32 offResult))

/-- The request was answered with `rc`. -/
def Got (pciPort : BitVec 16) (addr : BitVec 32) (rc : BitVec 16) (s : Sys) : Prop :=
  ∃ q, Running pciPort addr q [] s ∧ q.rc = rc ∧ s.request.get32 offRc = rc.signExtend 32 ∧
    if rc = vinfHgcmAsyncExecute then Completing q s
    else s.pending = [] ∧ (rc = vinfSuccess → s.answers q.id = some (s.request.get32 offResult))

/-- The wait has run out; `P` is known of the type in the header. -/
def Cancelling (pciPort : BitVec 16) (addr : BitVec 32) (P : BitVec 32 → Prop) (s : Sys) : Prop :=
  ∃ q, Running pciPort addr q [] s ∧ P (s.request.get32 offRequestType) ∧
    (s.pending = [⟨q.id, q.write.value⟩] ∨ s.pending = [])

/-- The cancellation is sent. -/
def Cancelled (pciPort : BitVec 16) (addr : BitVec 32) (s : Sys) : Prop :=
  s.pending = [] ∧ ∃ q x, Running pciPort addr q [x] s ∧ x.Cancels q

/-- A call has returned `ret` to its caller, who reads `result`. -/
def Returned (ret : BitVec 16) (result : BitVec 32) (s : Sys) : Prop :=
  s.pending = [] ∧ ∃ sent rest, s.calls = ⟨[], sent, none⟩ :: rest ∧
    Past s.answers s.nextId (⟨[], sent, some (ret, result)⟩ :: rest)

/-! ### The host keeps the assertions -/

variable {pciPort : BitVec 16} {addr : BitVec 32} {q : Sent} {more : List Sent}

/-- A running call does not depend on the block and on what is pending. -/
theorem Running.congr {s s' : Sys} (h : Running pciPort addr q more s) (hcalls : s'.calls = s.calls)
    (hnext : s'.nextId = s.nextId) (hanswers : s'.answers = s.answers) :
    Running pciPort addr q more s' where
  calls := by rw [hcalls, hanswers]; exact h.calls
  id_lt := by rw [hnext]; exact h.id_lt
  port := h.port
  value := h.value
  type := h.type

theorem Running.safe {s : Sys} (h : Running pciPort addr q more s) : Safe s := by
  obtain ⟨rest, hcalls, hrest⟩ := h.calls
  exact safe_of_running hcalls hrest

/-- The host completes the only request it has accepted. -/
theorem Running.completes {s s' : Sys} (h : Running pciPort addr q [] s)
    (hpending : s.pending = [⟨q.id, q.write.value⟩]) (hs : Completes s s') :
    Running pciPort addr q [] s' ∧ s'.pending = [] ∧ (∀ i < offFlags, s'.request i = s.request i) ∧
      s'.request.get32 offFlags = s.request.get32 offFlags ||| 1 ∧
      s'.answers q.id = some (s'.request.get32 offResult) := by
  obtain ⟨q', hq', request, hhead, hflags, rfl⟩ := hs
  rw [hpending, List.mem_singleton] at hq'
  subst hq'
  obtain ⟨rest, hcalls, hrest⟩ := h.calls
  refine ⟨⟨⟨rest, hcalls, hrest.update le_rfl⟩, h.id_lt, h.port, h.value, h.type⟩, ?_, hhead,
    hflags, ?_⟩
  · simp [hpending]
  · simp

theorem or_one_and_one (x : BitVec 32) : (x ||| 1) &&& 1 ≠ 0 := by
  intro h
  have h₀ := congrArg (fun y : BitVec 32 => y.getLsbD 0) h
  simp at h₀

theorem stable_got (rc : BitVec 16) : Stable (semantics ds) (Got pciPort addr rc) := by
  rintro s s' ⟨q, hrun, hq, hrc, hcase⟩ hs
  split_ifs at hcase with hasync
  · rcases hcase with ⟨hpending, -⟩ | ⟨hpending, -⟩
    · obtain ⟨hrun', hpending', hhead, hflags, hanswer⟩ := hrun.completes hpending hs
      refine ⟨q, hrun', hq, ?_, ?_⟩
      · rw [← hrc]
        exact Mem.get32_congr fun i _ hi => hhead i (by simp only [offRc, offFlags] at *; omega)
      · rw [if_pos hasync]
        refine Or.inr ⟨hpending', ?_, hanswer⟩
        rw [hflags]
        exact or_one_and_one _
    · exact absurd hs (not_completes hpending)
  · exact absurd hs (not_completes hcase.1)

theorem stable_cancelling (P : BitVec 32 → Prop) :
    Stable (semantics ds) (Cancelling pciPort addr P) := by
  rintro s s' ⟨q, hrun, hP, hpending | hpending⟩ hs
  · obtain ⟨hrun', hpending', hhead, -, -⟩ := hrun.completes hpending hs
    refine ⟨q, hrun', ?_, Or.inr hpending'⟩
    have htype : s'.request.get32 offRequestType = s.request.get32 offRequestType :=
      Mem.get32_congr fun i _ hi => hhead i (by simp only [offRequestType, offFlags] at *; omega)
    rw [htype]
    exact hP
  · exact absurd hs (not_completes hpending)

/-! ### The operations -/

section Operations

variable {J : Assertion (semantics ds) Safe}

theorem triple_load32 {K : BitVec 32 → Assertion (semantics ds) Safe} {o : ℕ}
    (h : ∀ s, J.Holds s → (K (s.request.get32 o)).Holds s) : Triple J (load32 o) K := by
  refine Triple.op fun s r s' hJ hact => ?_
  obtain ⟨hr, hs⟩ : r = s.request.get32 o ∧ s' = s := hact
  rw [hr, hs]
  exact h s hJ

theorem triple_store32 {K : Assertion (semantics ds) Safe} {o : ℕ} {v : BitVec 32}
    (h : ∀ s, J.Holds s → K.Holds (s.store o v)) : Triple J (store32 o v) fun _ => K := by
  refine Triple.op fun s r s' hJ hact => ?_
  obtain rfl : s' = s.store o v := hact
  exact h s hJ

theorem triple_storeStr {K : Assertion (semantics ds) Safe} {o : ℕ} {bs : List (BitVec 8)}
    (h : ∀ s, J.Holds s → K.Holds { s with request := s.request.write o bs }) :
    Triple J (storeStr o bs) fun _ => K := by
  refine Triple.op fun s r s' hJ hact => ?_
  obtain rfl : s' = { s with request := s.request.write o bs } := hact
  exact h s hJ

theorem triple_sDs : Triple J sDs fun r => J.given (r = ds) := by
  refine Triple.op fun s r s' hJ hact => ?_
  obtain ⟨hr, hs⟩ : r = ds ∧ s' = s := hact
  rw [hs]
  exact ⟨hr, hJ⟩

theorem triple_outpd {K : Assertion (semantics ds) Safe}
    (h : ∀ s s', J.Holds s → PortWritten pciPort addr s s' → K.Holds s') :
    Triple J (outpd pciPort addr) fun _ => K :=
  Triple.op fun s _ s' hJ hact => h s s' hJ hact

theorem triple_delay : Triple J delay fun _ => J := by
  refine Triple.op fun s r s' hJ hact => ?_
  obtain rfl : s' = s := hact
  exact hJ

theorem triple_mark {K : Assertion (semantics ds) Safe} {m : Mark}
    (h : ∀ s, J.Holds s → K.Holds (Marked m s)) : Triple J (mark m) fun _ => K := by
  refine Triple.op fun s r s' hJ hact => ?_
  obtain rfl : s' = Marked m s := hact
  exact h s hJ

end Operations

/-! ### The outline -/

variable (ds pciPort addr)

def idle : Assertion (semantics ds) Safe where
  Holds := Idle
  stable := stable_of_quiet fun _ h => h.1
  safe := fun _ h c hc => (h.2 c hc).1

def opened (P : Mem → Prop) : Assertion (semantics ds) Safe where
  Holds := Open P
  stable := stable_of_quiet fun _ h => h.1
  safe := by
    rintro s ⟨-, -, rest, hcalls, hrest⟩
    exact safe_of_running hcalls hrest

def answered : Assertion (semantics ds) Safe where
  Holds := fun s => ∃ rc, Got pciPort addr rc s
  stable := by
    rintro s s' ⟨rc, h⟩ hs
    exact ⟨rc, stable_got rc s s' h hs⟩
  safe := by
    rintro s ⟨rc, q, hrun, -⟩
    exact hrun.safe

def got (rc : BitVec 16) : Assertion (semantics ds) Safe where
  Holds := Got pciPort addr rc
  stable := stable_got rc
  safe := by
    rintro s ⟨q, hrun, -⟩
    exact hrun.safe

def cancelling (P : BitVec 32 → Prop) : Assertion (semantics ds) Safe where
  Holds := Cancelling pciPort addr P
  stable := stable_cancelling P
  safe := by
    rintro s ⟨q, hrun, -⟩
    exact hrun.safe

def cancelled : Assertion (semantics ds) Safe where
  Holds := Cancelled pciPort addr
  stable := stable_of_quiet fun _ h => h.1
  safe := by
    rintro s ⟨-, q, x, hrun, -⟩
    exact hrun.safe

theorem Returned.safe {ret : BitVec 16} {result : BitVec 32} {s : Sys}
    (h : Returned ret result s) : Safe s := by
  obtain ⟨-, sent, rest, hcalls, hpast⟩ := h
  exact safe_of_running hcalls fun c hc => hpast c (List.mem_cons_of_mem _ hc)

/-- The caller has not read the result yet. -/
def returned (ret : BitVec 16) : Assertion (semantics ds) Safe where
  Holds := fun s => Returned ret (s.request.get32 offResult) s
  stable := stable_of_quiet fun _ h => h.1
  safe := fun _ h => h.safe

/-- The caller has read the result. -/
def seen (ret : BitVec 16) (result : BitVec 32) : Assertion (semantics ds) Safe where
  Holds := Returned ret result
  stable := stable_of_quiet fun _ h => h.1
  safe := fun _ h => h.safe

variable {ds pciPort addr}

/-- The outline of `VBoxAuxSendRequest`: the header is stored, the port is written to, and `rc` is
read back. -/
theorem triple_sendRequest {lay : Layout} {type size : BitVec 16}
    {J K L : Assertion (semantics ds) Safe} {N : BitVec 16 → Assertion (semantics ds) Safe}
    (hsize : ∀ s v, J.Holds s → J.Holds (s.store offSize v))
    (hversion : ∀ s v, J.Holds s → J.Holds (s.store offVersion v))
    (htype : ∀ s, J.Holds s → K.Holds (s.store offRequestType (type.signExtend 32)))
    (hrc : ∀ s v, K.Holds s → K.Holds (s.store offRc v))
    (hout : ∀ s s', K.Holds s → PortWritten pciPort (mkLinear ds lay.request) s s' → L.Holds s')
    (hload : ∀ s, L.Holds s → (N ((s.request.get32 offRc).setWidth 16)).Holds s) :
    Triple J (vboxAuxSendRequest lay pciPort type size) N := by
  refine Triple.bind (triple_store32 fun s h => hsize s _ h) fun _ => ?_
  refine Triple.bind (triple_store32 fun s h => hversion s _ h) fun _ => ?_
  refine Triple.bind (triple_store32 htype) fun _ => ?_
  refine Triple.bind (triple_store32 fun s h => hrc s _ h) fun _ => ?_
  refine Triple.bind triple_sDs fun r => Triple.of_given fun hr => ?_
  rw [hr]
  refine Triple.bind (triple_outpd hout) fun _ => ?_
  exact Triple.bind (K := fun rc => N (rc.setWidth 16)) (triple_load32 hload) fun rc =>
    Triple.ret fun s h => h

/-- A running call returns to its caller. -/
theorem Running.returns {s : Sys} (h : Running pciPort addr q more s) (hpending : s.pending = [])
    {ret : BitVec 16} {result : BitVec 32}
    (hright : CallLog.Right s.answers ⟨[], q :: more, some (ret, result)⟩) :
    Returned ret result s := by
  obtain ⟨rest, hcalls, hrest⟩ := h.calls
  have hid := h.id_lt q (List.mem_cons_self ..)
  refine ⟨hpending, q :: more, rest, hcalls, ?_⟩
  intro c hc
  cases hc with
  | head => exact ⟨hright, fun x hx => (h.id_lt x hx).2⟩
  | tail _ hc => exact hrest.mono hid.2.le c hc

/-- What a call returns when it has sent one request, which the host has completed. -/
theorem Running.returned {s : Sys} (h : Running pciPort addr q [] s) (hpending : s.pending = [])
    {ret : BitVec 16} {result : BitVec 32} (hasync : ret = verrTimeout → q.rc ≠ vinfHgcmAsyncExecute)
    (hok : ret = vinfSuccess → s.answers q.id = some result) : Returned ret result s := by
  refine h.returns hpending ⟨rfl, fun ret' result' hret => ?_⟩
  cases hret
  refine ⟨fun hret => ⟨q, rfl, hok hret⟩, ?_⟩
  rintro hret ⟨x, hx, hrc⟩
  cases hx
  exact absurd hrc (hasync hret)

/-- What a call returns when it has sent a request and its cancellation. -/
theorem Cancelled.returned {s : Sys} (h : Cancelled pciPort addr s) (result : BitVec 32) :
    Returned verrTimeout result s := by
  obtain ⟨hpending, q, x, hrun, hcancel⟩ := h
  refine hrun.returns hpending ⟨rfl, fun ret' result' hret => ?_⟩
  cases hret
  exact ⟨fun hret => absurd hret (by decide), fun _ _ => ⟨q, x, rfl, hcancel⟩⟩

/-- Waiting for the host: it was left by the `break` only if the host has completed the request. -/
theorem triple_waitDone (waitMs : ℕ) :
    Triple (got ds pciPort addr vinfHgcmAsyncExecute) (waitDone waitMs) fun done =>
      cond done (returned ds vinfSuccess) (got ds pciPort addr vinfHgcmAsyncExecute) := by
  induction waitMs with
  | zero => exact Triple.ret fun s h => h
  | succ waitMs ih =>
      refine Triple.bind triple_delay fun _ => ?_
      refine Triple.bind (K := fun flags => cond (decide (flags &&& 1 ≠ 0))
        (returned ds vinfSuccess) (got ds pciPort addr vinfHgcmAsyncExecute))
        (triple_load32 ?_) fun flags => ?_
      · rintro s ⟨q, hrun, hq, hrc, hcase⟩
        by_cases hflag : s.request.get32 offFlags &&& 1 ≠ 0
        · rw [decide_eq_true hflag]
          rw [if_pos rfl] at hcase
          obtain ⟨-, hclear⟩ | ⟨hpending, -, hanswer⟩ := hcase
          · exact absurd hclear hflag
          · exact hrun.returned hpending (fun h => absurd h (by decide)) fun _ => hanswer
        · rw [decide_eq_false hflag]
          exact ⟨q, hrun, hq, hrc, hcase⟩
      · by_cases hflag : flags &&& 1 ≠ 0
        · rw [decide_eq_true hflag, if_pos hflag]
          exact Triple.ret fun s h => h
        · rw [decide_eq_false hflag, if_neg hflag]
          exact ih

/-- The request is written to the port. -/
theorem portWritten_open {service : Service} {s s' : Sys}
    (h : Open (fun r => r.get32 offFlags = 0 ∧
      r.get32 offRequestType = service.type.signExtend 32) s)
    (hw : PortWritten pciPort addr s s') : ∃ rc, Got pciPort addr rc s' := by
  obtain ⟨hpending, ⟨hflags, htype⟩, rest, hcalls, hrest⟩ := h
  obtain ⟨rc, request, hrc, hkeep, rfl⟩ := hw
  have hservice : service.type.signExtend 32 ≠ reqHgcmCancel.signExtend 32 := by
    cases service with
    | connect => decide
    | disconnect => decide
    | call => decide
  have hnotCancel : (⟨pciPort, addr, s.request⟩ : PortWrite).type ≠ reqHgcmCancel.signExtend 32 := by
    rw [PortWrite.type, htype]
    exact hservice
  refine ⟨rc, ⟨s.nextId, ⟨pciPort, addr, s.request⟩, rc⟩, ?_, rfl, hrc, ?_⟩
  · refine ⟨⟨rest, by rw [hcalls]; rfl, hrest.answered le_rfl _⟩, ?_, rfl, rfl, hnotCancel⟩
    · intro x hx
      obtain rfl := List.mem_singleton.1 hx
      exact ⟨le_rfl, Nat.lt_succ_self _⟩
  · have hstill : stillPending s ⟨pciPort, addr, s.request⟩ rc =
        if rc = vinfHgcmAsyncExecute then [⟨s.nextId, addr⟩] else [] := by
      simp only [stillPending, if_neg hnotCancel, hpending, List.nil_append]
    by_cases hasync : rc = vinfHgcmAsyncExecute
    · rw [if_pos hasync]
      refine Or.inl ⟨by rw [hstill, if_pos hasync], ?_⟩
      dsimp only
      rw [hkeep hasync, hflags]
      rfl
    · rw [if_neg hasync]
      refine ⟨by rw [hstill, if_neg hasync], fun hok => ?_⟩
      dsimp only
      rw [if_pos hok, Function.update_self]

/-- The cancellation is written to the port. -/
theorem portWritten_cancelling {s s' : Sys}
    (h : Cancelling pciPort addr (· = reqHgcmCancel.signExtend 32) s)
    (hw : PortWritten pciPort addr s s') : Cancelled pciPort addr s' := by
  obtain ⟨q, hrun, htype, hpending⟩ := h
  obtain ⟨rc, request, -, -, rfl⟩ := hw
  have hcancel : (⟨pciPort, addr, s.request⟩ : PortWrite).type = reqHgcmCancel.signExtend 32 := htype
  obtain ⟨rest, hcalls, hrest⟩ := hrun.calls
  have hid := hrun.id_lt q (List.mem_singleton_self q)
  refine ⟨?_, q, ⟨s.nextId, ⟨pciPort, addr, s.request⟩, rc⟩, ?_, ?_⟩
  · -- whatever is left is of this address
    have hleft : ∀ x ∈ s.pending, x.addr = addr := by
      rcases hpending with hq | hnone
      · rw [hq]
        intro x hx
        obtain rfl := List.mem_singleton.1 hx
        exact hrun.value
      · rw [hnone]
        intro x hx
        cases hx
    simp only [stillPending, if_pos hcancel]
    rw [List.filter_eq_nil_iff]
    intro x hx
    have haddr : x.addr = addr := by
      split_ifs at hx
      · rcases List.mem_append.1 hx with hx | hx
        · exact hleft x hx
        · obtain rfl := List.mem_singleton.1 hx
          rfl
      · exact hleft x hx
    simp [haddr]
  · refine ⟨⟨rest, by rw [hcalls]; rfl, hrest.answered hid.2.le _⟩, ?_, hrun.port, hrun.value,
      hrun.type⟩
    · intro x hx
      rcases List.mem_cons.1 hx with rfl | hx
      · exact ⟨le_rfl, hid.2.trans (Nat.lt_succ_self _)⟩
      · obtain rfl := List.mem_singleton.1 hx
        exact ⟨hid.2.le, Nat.lt_succ_self _⟩
  · exact ⟨hcancel, hrun.value.symm, hrun.port.symm, hrun.type⟩

/-- A store by the caller or into the header, before the request is sent. -/
theorem opened_store {P Q : Mem → Prop} {o : ℕ} {v : BitVec 32}
    (hPQ : ∀ r : Mem, P r → Q (r.put32 o v)) (s : Sys) (h : (opened ds P).Holds s) :
    (opened ds Q).Holds (s.store o v) :=
  ⟨h.1, hPQ _ h.2.1, h.2.2⟩

/-- A store into the header, before the cancellation is sent. -/
theorem cancelling_store {P Q : BitVec 32 → Prop} {o : ℕ} {v : BitVec 32}
    (hPQ : ∀ r : Mem, P (r.get32 offRequestType) → Q ((r.put32 o v).get32 offRequestType))
    (s : Sys) (h : (cancelling ds pciPort addr P).Holds s) :
    (cancelling ds pciPort addr Q).Holds (s.store o v) := by
  obtain ⟨q, hrun, hP, hpending⟩ := h
  exact ⟨q, hrun.congr rfl rfl rfl, hPQ _ hP, hpending⟩

/-- The request proper. -/
theorem triple_sendRequest_service {lay : Layout} {service : Service} {size : BitVec 16} :
    Triple (opened ds fun r => r.get32 offFlags = 0)
      (vboxAuxSendRequest lay pciPort service.type size)
      (got ds pciPort (mkLinear ds lay.request)) := by
  refine triple_sendRequest (K := opened ds fun r => r.get32 offFlags = 0 ∧
    r.get32 offRequestType = service.type.signExtend 32)
    (L := answered ds pciPort (mkLinear ds lay.request)) ?_ ?_ ?_ ?_ ?_ ?_
  · intro s v
    refine opened_store (fun r hflags => ?_) s
    rw [Mem.get32_put32_of_disjoint (by decide), hflags]
  · intro s v
    refine opened_store (fun r hflags => ?_) s
    rw [Mem.get32_put32_of_disjoint (by decide), hflags]
  · refine opened_store fun r hflags => ⟨?_, Mem.get32_put32 ..⟩
    rw [Mem.get32_put32_of_disjoint (by decide), hflags]
  · intro s v
    refine opened_store (fun r hP => ?_) s
    rw [Mem.get32_put32_of_disjoint (by decide), Mem.get32_put32_of_disjoint (by decide)]
    exact hP
  · intro s s' h hw
    exact portWritten_open h hw
  · rintro s ⟨rc, hgot⟩
    have hrc : s.request.get32 offRc = rc.signExtend 32 := hgot.choose_spec.2.2.1
    rw [hrc, setWidth_signExtend (by decide)]
    exact hgot

/-- The cancellation. -/
theorem triple_sendRequest_cancel {lay : Layout} {size : BitVec 16} :
    Triple (cancelling ds pciPort (mkLinear ds lay.request) fun _ => True)
      (vboxAuxSendRequest lay pciPort reqHgcmCancel size)
      fun _ => cancelled ds pciPort (mkLinear ds lay.request) := by
  refine triple_sendRequest (K := cancelling ds pciPort (mkLinear ds lay.request)
    (· = reqHgcmCancel.signExtend 32)) (L := cancelled ds pciPort (mkLinear ds lay.request))
    ?_ ?_ ?_ ?_ ?_ ?_
  · intro s v
    exact cancelling_store (fun _ _ => trivial) s
  · intro s v
    exact cancelling_store (fun _ _ => trivial) s
  · intro s
    refine cancelling_store (fun r _ => ?_) s
    rw [Mem.get32_put32]
  · intro s v
    refine cancelling_store (fun r htype => ?_) s
    rw [Mem.get32_put32_of_disjoint (by decide), htype]
  · intro s s' h hw
    exact portWritten_cancelling h hw
  · intro s h
    exact h

/-- **The outline of `VBoxAuxSendHGCMRequest`.** -/
theorem triple_sendHGCMRequest {lay : Layout} {service : Service} {size : BitVec 16} :
    Triple (opened ds fun _ => True) (vboxAuxSendHGCMRequest lay pciPort service.type size)
      (returned ds) := by
  refine Triple.bind (K := fun _ => opened ds fun r => r.get32 offFlags = 0)
    (triple_store32 (opened_store fun _ _ => Mem.get32_put32 ..)) fun _ => ?_
  refine Triple.bind (K := fun _ => opened ds fun r => r.get32 offFlags = 0)
    (triple_store32 (opened_store fun r hflags => ?_)) fun _ => ?_
  · rw [Mem.get32_put32_of_disjoint (by decide), hflags]
  refine Triple.bind triple_sendRequest_service fun ret => ?_
  by_cases hasync : ret = vinfHgcmAsyncExecute
  · subst hasync
    rw [if_neg (by decide), if_pos rfl]
    refine Triple.bind (triple_waitDone asyncTimeout) fun done => ?_
    cases done with
    | true => exact Triple.ret fun s h => h
    | false =>
        refine Triple.bind (K := fun _ => cancelling ds pciPort (mkLinear ds lay.request)
          fun _ => True) (triple_store32 ?_) fun _ => ?_
        · rintro s ⟨q, hrun, hq, hrc, hcase⟩
          rw [if_pos rfl] at hcase
          refine ⟨q, hrun.congr rfl rfl rfl, trivial, ?_⟩
          rcases hcase with ⟨hpending, -⟩ | ⟨hpending, -⟩
          · exact Or.inl hpending
          · exact Or.inr hpending
        · refine Triple.bind triple_sendRequest_cancel fun _ => ?_
          exact Triple.ret fun s h => Cancelled.returned h _
  · have hdone : ∀ s, (got ds pciPort (mkLinear ds lay.request) ret).Holds s →
        (returned ds ret).Holds s := by
      rintro s ⟨q, hrun, hq, -, hcase⟩
      rw [if_neg hasync] at hcase
      exact hrun.returned hcase.1 (fun _ => by rw [hq]; exact hasync) hcase.2
    by_cases hok : ret = vinfSuccess
    · subst hok
      rw [if_neg (by decide), if_neg hasync]
      exact Triple.ret hdone
    · rw [if_pos ⟨hok, hasync⟩]
      exact Triple.ret hdone

theorem triple_storeFields (fields : List (ℕ × List (BitVec 8))) :
    Triple (opened ds fun _ => True) (storeFields fields) fun _ => opened ds fun _ => True := by
  induction fields with
  | nil => exact Triple.ret fun s h => h
  | cons field fields ih =>
      refine Triple.bind (K := fun _ => opened ds fun _ => True) (triple_storeStr ?_) fun _ => ih
      intro s h
      exact ⟨h.1, trivial, h.2.2⟩

/-- **The step**: one call leads from a state between two calls to another one. -/
theorem triple_callService (lay : Layout) (c : ServiceCall) :
    Triple (idle ds) (callService lay c) fun _ => idle ds := by
  refine Triple.bind (K := fun _ => opened ds fun _ => True) (triple_mark ?_) fun _ => ?_
  · rintro s ⟨hpending, hpast⟩
    refine ⟨hpending, trivial, s.calls, ?_, hpast⟩
    rw [Marked, hpending]
  refine Triple.bind (triple_storeFields c.fields) fun _ => ?_
  refine Triple.bind triple_sendHGCMRequest fun ret => ?_
  refine Triple.bind (K := seen ds ret) (triple_load32 fun s h => h) fun result => ?_
  refine triple_mark ?_
  rintro s ⟨hpending, sent, rest, hcalls, hpast⟩
  refine ⟨hpending, ?_⟩
  rw [Marked, hcalls]
  exact hpast

/-- **The run**: so does any sequence of calls. -/
theorem triple_callServices (lay : Layout) (cs : List ServiceCall) :
    Triple (idle ds) (callServices lay cs) fun _ => idle ds := by
  induction cs with
  | nil => exact Triple.ret fun s h => h
  | cons c cs ih => exact Triple.bind (triple_callService lay c) fun _ => ih

end Assertions

/-! ### Completions are never confused -/

/-- Before any call: the block holds anything, the host has nothing to complete. -/
def Sys.start (request : Mem) : Sys := ⟨request, 0, [], fun _ => none, []⟩

/-- **Completions are never confused**: in every state that any sequence of calls can reach next to
any host, no call has begun with a request outstanding, every result that was read on success is
that of the call's own request, and every timeout has led to exactly one cancellation of it. -/
theorem completions_never_confused {ds : BitVec 16} {lay : Layout} {cs : List ServiceCall}
    {request : Mem} {code : Code Unit} {s : Sys}
    (hr : Program.Reach (semantics ds) (callServices lay cs, Sys.start request) (code, s)) :
    ∀ c ∈ s.calls, c.Right s.answers :=
  (triple_callServices lay cs).invariant
    (⟨rfl, fun _ hc => absurd hc (List.not_mem_nil)⟩ : Idle (Sys.start request)) hr

/-- The host completes a request with the given result. -/
def Sys.complete (s : Sys) (q : Pending) (result : BitVec 32) : Sys :=
  let request := (s.request.put32 offResult result).put32 offFlags
    (s.request.get32 offFlags ||| 1)
  { s with
    request := request
    pending := s.pending.erase q
    answers := Function.update s.answers q.id (some (request.get32 offResult)) }

theorem completes_complete {s : Sys} {q : Pending} (hq : q ∈ s.pending) (result : BitVec 32) :
    Completes s (s.complete q result) := by
  refine ⟨q, hq, _, fun i hi => ?_, Mem.get32_put32 .., rfl⟩
  have hresult : i < offResult := hi.trans (by decide)
  rw [Mem.put32, Mem.write_of_lt hi, Mem.put32, Mem.write_of_lt hresult]

/-- A host that takes its time: it accepts every request and completes it during a delay, with a
result that tells its number, but for the request with number 1. -/
def slowHost (ds : BitVec 16) : (o : Op) → Sys → ops.Res o × Sys
  | .load32 o, s => (s.request.get32 o, s)
  | .store16 o v, s => ((), { s with request := s.request.put16 o v })
  | .store32 o v, s => ((), s.store o v)
  | .storeStr o bs, s => ((), { s with request := s.request.write o bs })
  | .mappingRoot _, s => (0, s)
  | .segread, s => ((), s)
  | .sDs, s => (ds, s)
  | .outpd port value, s =>
      let request := s.request.put32 offRc (vinfHgcmAsyncExecute.signExtend 32)
      ((), {
        request := request
        nextId := s.nextId + 1
        pending := stillPending s ⟨port, value, s.request⟩ vinfHgcmAsyncExecute
        answers := s.answers
        calls := s.calls.modifyHead fun c => { c with
          sent := c.sent ++ [⟨s.nextId, ⟨port, value, s.request⟩, vinfHgcmAsyncExecute⟩] } })
  | .delay, s =>
      match s.pending with
      | [] => ((), s)
      | q :: _ => ((), if q.id = 1 then s else s.complete q (BitVec.ofNat 32 (q.id + 41)))
  | .int86 _, s => (⟨0, 0, 0, 0⟩, s)
  | .getDos, s =>
      (⟨0, fun _ => ⟨s.request, 0, 0, 0⟩, fun _ => ⟨s.request, 0, 0, 0, 0⟩, 0, 0, none⟩, s)
  | .setDos _, s => ((), s)
  | .mark m, s => ((), Marked m s)

theorem slowHost_act (ds : BitVec 16) (o : Op) (s : Sys) :
    ∃ s', (semantics ds).act o s (slowHost ds o s).1 s' ∧
      Program.Rely (semantics ds) s' (slowHost ds o s).2 := by
  cases o with
  | load32 o => exact ⟨s, ⟨rfl, rfl⟩, .refl⟩
  | sDs => exact ⟨s, ⟨rfl, rfl⟩, .refl⟩
  | outpd port value =>
      have hflags : (s.request.put32 offRc (vinfHgcmAsyncExecute.signExtend 32)).get32 offFlags =
        s.request.get32 offFlags := Mem.get32_put32_of_disjoint (by decide)
      have hne : ¬ vinfHgcmAsyncExecute = vinfSuccess := by decide
      refine ⟨_, ⟨vinfHgcmAsyncExecute, _, Mem.get32_put32 .., fun _ => hflags, ?_⟩, .refl⟩
      rw [if_neg hne]
      rfl
  | delay =>
      refine ⟨s, rfl, ?_⟩
      rw [slowHost]
      cases hpending : s.pending with
      | nil => exact .refl
      | cons q qs =>
          dsimp only
          split_ifs
          · exact .refl
          · have hq : q ∈ s.pending := by
              rw [hpending]
              exact List.mem_cons_self
            exact .single (completes_complete hq _)
  | store16 o v => exact ⟨_, rfl, .refl⟩
  | store32 o v => exact ⟨_, rfl, .refl⟩
  | storeStr o bs => exact ⟨_, rfl, .refl⟩
  | mappingRoot i => exact ⟨_, rfl, .refl⟩
  | segread => exact ⟨_, rfl, .refl⟩
  | int86 c => exact ⟨_, rfl, .refl⟩
  | getDos => exact ⟨_, rfl, .refl⟩
  | setDos d => exact ⟨_, rfl, .refl⟩
  | mark m => exact ⟨_, rfl, .refl⟩

/-- Three calls, the last one a disconnect. -/
def connectCallAndDisconnect : List ServiceCall :=
  [⟨[(32, [2, 0, 0, 0])], 0xD020, .connect, 168⟩, ⟨[(32, [7, 0, 0, 0])], 0xD020, .call, 80⟩,
    ⟨[(32, [7, 0, 0, 0])], 0xD020, .disconnect, 36⟩]

/-- The requests of a call, by their numbers and types, and what the call has returned. -/
def CallLog.account (c : CallLog) : List (ℕ × BitVec 32) × Option (BitVec 16 × BitVec 32) :=
  (c.sent.map fun q => (q.id, q.write.type), c.returned)

/-- The first and the last call are completed during a delay, with the results 41 and 44; the second
one is given up, and its cancellation has number 2. -/
theorem connectCallAndDisconnect_right :
    let s := (Program.run (slowHost 0x1234) (callServices ⟨0x100, 0x200, 0x400⟩
      connectCallAndDisconnect) (Sys.start fun _ => 0)).2
    s.calls.map CallLog.account =
        [([(3, 61)], some (vinfSuccess, 44)), ([(1, 62), (2, 64)], some (verrTimeout, 0)),
          ([(0, 60)], some (vinfSuccess, 41))] ∧
      ∀ c ∈ s.calls, c.Right s.answers :=
  ⟨by decide +kernel,
    completions_never_confused (Program.reach_run (slowHost_act 0x1234) _ _)⟩

end Hgcm

end Vbsmount

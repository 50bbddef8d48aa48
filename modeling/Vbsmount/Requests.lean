/-
**The requests to the VMM device, as they stand in memory.**

The requests are records of different lengths laid over one block.  Each starts with the same
header, which tells its type and its size; the ones for a service of the host go on with a header of
their own; and a call of a service says what function it is for and what types its parameters have.
A block that has been sent can be read back, and stands for one request at most.

Main definitions:

* `VmmDev.Request` — the requests of the program, with what is asked for in them;
* `VmmDev.Request.type`, `VmmDev.Request.size`, `VmmDev.Request.words`, `VmmDev.Request.strings` —
  the records;
* `VmmDev.Request.Carried`, `VmmDev.Request.decode` — a block that carries a request, and the
  request that a block carries;
* `VmmDev.Speaks`, `VmmDev.Sends` — the writes to the port that are recorded are requests.

Main results:

* `VmmDev.Request.decode_eq_some_iff` — **a block carries one request at most**;
* `VmmDev.sends_sendRequest`, `VmmDev.sends_sendHGCMRequest` — the header that the sending functions
  complete, and the cancellation;
* `VmmDev.sends_reportGuestInfo2`, `VmmDev.sends_beginSession`, `VmmDev.sends_shflGetMappings`,
  `VmmDev.sends_shflGetMapName`, `VmmDev.sends_endSession` and the like — what each entry point
  sends.
-/

import Vbsmount.VBoxAux

set_option relaxedAutoImplicit false
set_option autoImplicit false

namespace Vbsmount

namespace VmmDev

open Bytes

/-! ### Requests -/

/-- The requests that the transient part sends. -/
inductive Request
  | reportGuestInfo2
  | reportGuestInfo
  | getHostVersion
  | connect
  | queryMappings (clientId numMappings addr : BitVec 32)
  | queryMapName (clientId root ptrSize addr : BitVec 32)
  | disconnect (clientId : BitVec 32)
  | cancel
  deriving DecidableEq

namespace Request

/-- `requestType`. -/
def type : Request → BitVec 16
  | reportGuestInfo2 => reqReportGuestInfo2
  | reportGuestInfo => reqReportGuestInfo
  | getHostVersion => reqGetHostVersion
  | connect => reqHgcmConnect
  | queryMappings .. | queryMapName .. => reqHgcmCall
  | disconnect _ => reqHgcmDisconnect
  | cancel => reqHgcmCancel

/-- `size`. -/
def size : Request → BitVec 16
  | reportGuestInfo2 => 168
  | reportGuestInfo => 32
  | getHostVersion => 40
  | connect => 168
  | queryMappings .. => 80
  | queryMapName .. => 68
  | disconnect _ => 36
  | cancel => 32

/-- The requests for a service of the host. -/
def toService : Request → Bool
  | connect | queryMappings .. | queryMapName .. | disconnect _ => true
  | _ => false

/-- The words behind the headers. -/
def words : Request → List (ℕ × BitVec 32)
  | reportGuestInfo2 => [(24, 4), (28, 0), (32, 0), (36, 0)]
  | reportGuestInfo => [(24, vmmdevVersion), (28, vboxOstypeDos)]
  | getHostVersion => []
  | connect => [(32, 2)]
  | queryMappings clientId numMappings addr =>
      [(offClientId, clientId), (offFunction, shflFnQueryMappings), (offCParms, 3),
        (44, parmtype32bit), (48, 0), (56, parmtype32bit), (60, numMappings), (68, parmtypeLinaddr),
        (72, numMappings * 8), (offMappingsAddr, addr)]
  | queryMapName clientId root ptrSize addr =>
      [(offClientId, clientId), (offFunction, shflFnQueryMapName), (offCParms, 2),
        (44, parmtype32bit), (48, root), (56, parmtypeLinaddr), (60, ptrSize), (offNameAddr, addr)]
  | disconnect clientId => [(offClientId, clientId)]
  | cancel => [(offFlags, 0)]

/-- The strings behind the headers. -/
def strings : Request → List (ℕ × List (BitVec 8))
  | reportGuestInfo2 => [(40, cstring "4.0.0_VBSMOUNT-0.1")]
  | connect => [(36, cstring "VBoxSharedFolders")]
  | _ => []

/-- The fields behind the headers are filled in. -/
def Filled (r : Request) (b : Mem) : Prop :=
  (∀ f ∈ r.words, b.get32 f.1 = f.2) ∧ ∀ f ∈ r.strings, b.Contains f.1 f.2

/-- The header of a request for a service is as it was before the host has looked at it. -/
def Fresh (b : Mem) : Prop := b.get32 offFlags = 0 ∧ b.get32 offResult = 0

/-- The block carries the request. -/
def Carried (r : Request) (b : Mem) : Prop :=
  (b.get32 offSize = r.size.setWidth 32 ∧ b.get32 offVersion = requestHeaderVersion ∧
    b.get32 offRequestType = r.type.signExtend 32 ∧ b.get32 offRc = 0) ∧
    (r.toService = true → Fresh b) ∧ r.Filled b

instance (r : Request) (b : Mem) : Decidable (r.Carried b) :=
  inferInstanceAs (Decidable ((_ ∧ _ ∧ _ ∧ _) ∧ (_ → _ ∧ _) ∧ _ ∧ _))

/-- The request of the type in the header, with what stands in its fields. -/
def candidate (b : Mem) : Option Request :=
  let type := b.get32 offRequestType
  if type = reqReportGuestInfo2.signExtend 32 then some reportGuestInfo2
  else if type = reqReportGuestInfo.signExtend 32 then some reportGuestInfo
  else if type = reqGetHostVersion.signExtend 32 then some getHostVersion
  else if type = reqHgcmConnect.signExtend 32 then some connect
  else if type = reqHgcmDisconnect.signExtend 32 then some (disconnect (b.get32 offClientId))
  else if type = reqHgcmCancel.signExtend 32 then some cancel
  else if b.get32 offFunction = shflFnQueryMappings then
    some (queryMappings (b.get32 offClientId) (b.get32 60) (b.get32 offMappingsAddr))
  else some (queryMapName (b.get32 offClientId) (b.get32 48) (b.get32 60) (b.get32 offNameAddr))

/-- The request that a block carries. -/
def decode (b : Mem) : Option Request := (candidate b).filter fun r => r.Carried b

theorem candidate_of_carried {r : Request} {b : Mem} (h : r.Carried b) : candidate b = some r := by
  obtain ⟨⟨-, -, htype, -⟩, -, hwords, -⟩ := h
  rw [candidate, htype]
  cases r with
  | reportGuestInfo2 => rfl
  | reportGuestInfo => rfl
  | getHostVersion => rfl
  | connect => rfl
  | disconnect clientId =>
      have hclient := hwords (offClientId, clientId) (by simp [words])
      simp only at hclient
      rw [hclient]
      rfl
  | cancel => rfl
  | queryMappings clientId numMappings addr =>
      simp only [words, List.forall_mem_cons] at hwords
      obtain ⟨hclient, hfunction, -, -, -, -, hnum, -, -, haddr, -⟩ := hwords
      rw [hclient, hfunction, hnum, haddr]
      rfl
  | queryMapName clientId root ptrSize addr =>
      simp only [words, List.forall_mem_cons] at hwords
      obtain ⟨hclient, hfunction, -, -, hroot, -, hsize, haddr, -⟩ := hwords
      rw [hclient, hfunction, hroot, hsize, haddr]
      rfl

/-- **A block carries one request at most**, and that is read back. -/
theorem decode_eq_some_iff {r : Request} {b : Mem} : decode b = some r ↔ r.Carried b := by
  rw [decode, Option.filter_eq_some_iff, decide_eq_true_iff]
  exact ⟨fun h => h.2, fun h => ⟨candidate_of_carried h, h⟩⟩

end Request

/-! ### What is kept when the headers are completed -/

/-- The fields behind the header of a request for a service stand behind that header. -/
theorem Request.offset_le (r : Request) : (∀ f ∈ r.words, 16 ≤ f.1) ∧ (∀ f ∈ r.strings, 16 ≤ f.1) ∧
    (r.toService = true → (∀ f ∈ r.words, hgcmHeaderSize ≤ f.1) ∧
      ∀ f ∈ r.strings, hgcmHeaderSize ≤ f.1) := by
  cases r <;>
    simp [Request.words, Request.strings, Request.toService, hgcmHeaderSize, offClientId,
      offFunction, offCParms, offMappingsAddr, offNameAddr, offFlags]

theorem Request.Filled.congr {r : Request} {b b' : Mem} {o : ℕ} (h : r.Filled b)
    (hb : Mem.AgreeFrom o b' b) (ho : (∀ f ∈ r.words, o ≤ f.1) ∧ ∀ f ∈ r.strings, o ≤ f.1) :
    r.Filled b' :=
  ⟨fun f hf => (hb.get32_eq (ho.1 f hf)).trans (h.1 f hf),
    fun f hf => hb.contains (ho.2 f hf) (h.2 f hf)⟩

/-- **The header completes a request.** -/
theorem Request.carried_withHeader {r : Request} {b : Mem} (hfresh : r.toService = true → Fresh b)
    (hfilled : r.Filled b) : r.Carried (withHeader r.type r.size b) := by
  have hagree := withHeader_agree r.type r.size b
  refine ⟨⟨?_, ?_, withHeader_type r.type r.size b, ?_⟩, fun hr => ?_, ?_⟩
  · simp (disch := decide) only [withHeader, Mem.get32_put32_of_disjoint, Mem.get32_put32]
  · simp (disch := decide) only [withHeader, Mem.get32_put32_of_disjoint, Mem.get32_put32]
  · rw [withHeader, Mem.get32_put32]
    decide
  · obtain ⟨hflags, hresult⟩ := hfresh hr
    exact ⟨(hagree.get32_eq (by decide)).trans hflags, (hagree.get32_eq (by decide)).trans hresult⟩
  · exact hfilled.congr hagree ⟨r.offset_le.1, r.offset_le.2.1⟩

/-! ### Runs that send requests -/

/-- The writes to the port that have been recorded. -/
def writes (es : List Event) : List PortWrite :=
  es.filterMap fun
    | .out w => some w
    | .mark _ => none

section Sends

variable (e : Env) (lay : Layout)

/-- The write tells the device behind `port` where the request is. -/
structure Hands (ds port : BitVec 16) (w : PortWrite) (r : Request) : Prop where
  port : w.port = port
  value : w.value = mkLinear ds lay.request
  block : r.Carried w.block

/-- The writes that have been recorded are these requests, one by one. -/
def Speaks (ds port : BitVec 16) (es : List Event) (rs : List Request) : Prop :=
  List.Forall₂ (Hands lay ds port) (writes es) rs

theorem writes_append (es fs : List Event) : writes (es ++ fs) = writes es ++ writes fs :=
  List.filterMap_append ..

variable {e lay} {ds port : BitVec 16}

theorem Speaks.append {es fs : List Event} {rs rs' : List Request} (h : Speaks lay ds port es rs)
    (h' : Speaks lay ds port fs rs') : Speaks lay ds port (es ++ fs) (rs ++ rs') := by
  rw [Speaks, writes_append]
  exact List.rel_append h h'

/-- The requests that have been sent are read back from the blocks. -/
theorem Speaks.map_eq {es : List Event} {rs : List Request} (h : Speaks lay ds port es rs) :
    (writes es).map (fun w => (w.port, w.value, Request.decode w.block)) =
      rs.map fun r => (port, mkLinear ds lay.request, some r) := by
  unfold Speaks at h
  generalize writes es = ws at h
  induction h with
  | nil => rfl
  | cons hw _ ih =>
      rw [List.map_cons, List.map_cons, ih, hw.port, hw.value,
        Request.decode_eq_some_iff.2 hw.block]

variable (e lay port) in
/-- The code sends these requests, and leaves `s` and DOS as they are. -/
def Sends {α : Type} (p : Code α) (m : Machine) (rs : List Request) : Prop :=
  ∃ es, Emits m es (after e p m) ∧ Speaks lay m.s port es rs

variable {α β : Type} {m : Machine}

theorem Silent.sends {p : Code α} (h : Silent e p) (m : Machine) : Sends e lay port p m [] :=
  ⟨[], h m, List.Forall₂.nil⟩

theorem sends_mark (k : Mark) (m : Machine) : Sends e lay port (mark k) m [] :=
  ⟨[.mark k], ⟨rfl, rfl, rfl⟩, List.Forall₂.nil⟩

theorem Sends.s_eq {p : Code α} {rs : List Request} (h : Sends e lay port p m rs) :
    (after e p m).s = m.s := by
  obtain ⟨es, hes, -⟩ := h
  exact hes.s

theorem Sends.dos_eq {p : Code α} {rs : List Request} (h : Sends e lay port p m rs) :
    (after e p m).dos = m.dos := by
  obtain ⟨es, hes, -⟩ := h
  exact hes.dos

/-- **A sequence sends what its parts send.** -/
theorem Sends.bind {p : Code α} {f : α → Code β} {rs rs' : List Request}
    (hp : Sends e lay port p m rs) (hf : Sends e lay port (f (value e p m)) (after e p m) rs') :
    Sends e lay port (p >>= f) m (rs ++ rs') := by
  obtain ⟨es, hes, hspeaks⟩ := hp
  obtain ⟨fs, hfs, hspeaks'⟩ := hf
  rw [hes.s] at hspeaks'
  exact ⟨es ++ fs, emits_bind e hes hfs, hspeaks.append hspeaks'⟩

theorem Sends.of_bind_silent {p : Code α} {f : α → Code β} {rs : List Request}
    (hp : Sends e lay port p m rs) (hf : ∀ a, Silent e (f a)) :
    Sends e lay port (p >>= f) m rs := by
  have h := hp.bind ((hf _).sends _)
  rwa [List.append_nil] at h

theorem Silent.bind_sends {p : Code α} {f : α → Code β} {rs : List Request} (hp : Silent e p)
    (hf : Sends e lay port (f (value e p m)) (after e p m) rs) : Sends e lay port (p >>= f) m rs :=
  (hp.sends m).bind hf

/-- **`VBoxAuxSendRequest` sends the request that has been filled in.** -/
theorem sends_sendRequest {r : Request} (hr : r.toService = false)
    (hfilled : r.Filled m.shared.request) :
    Sends e lay port (vboxAuxSendRequest lay port r.type r.size) m [r] := by
  refine ⟨_, emits_sendRequest e lay port r.type r.size m, ?_⟩
  refine List.Forall₂.cons ⟨rfl, rfl, Request.carried_withHeader (fun h => ?_) hfilled⟩ .nil
  rw [hr] at h
  cases h

/-- A request for a service, and its cancellation if it is given up. -/
def exchange (r : Request) (cancelled : Bool) : List Request :=
  r :: if cancelled then [.cancel] else []

/-- The block of a request to a service, when its header is completed. -/
def serviceBlock (r : Request) (b : Mem) : Mem :=
  withHeader r.type r.size ((b.put32 offFlags 0).put32 offResult (vinfSuccess.signExtend 32))

theorem Request.carried_serviceBlock {r : Request} {b : Mem} (hr : r.toService = true)
    (hfilled : r.Filled b) : r.Carried (serviceBlock r b) := by
  have hagree : Mem.AgreeFrom hgcmHeaderSize
      ((b.put32 offFlags 0).put32 offResult (vinfSuccess.signExtend 32)) b :=
    (Mem.agreeFrom_put32 (by decide) _ _).trans (Mem.agreeFrom_put32 (by decide) _ _)
  refine Request.carried_withHeader (fun _ => ⟨?_, ?_⟩) (hfilled.congr hagree (r.offset_le.2.2 hr))
  · simp (disch := decide) only [Mem.get32_put32_of_disjoint, Mem.get32_put32]
  · rw [Mem.get32_put32]
    decide

/-- **`VBoxAuxSendHGCMRequest` sends the request that has been filled in**, and cancels it when the
time is up. -/
theorem sends_sendHGCMRequest {r : Request} (hr : r.toService = true)
    (hfilled : r.Filled m.shared.request) :
    ∃ cancelled, Sends e lay port (vboxAuxSendHGCMRequest lay port r.type r.size) m
        (exchange r cancelled) ∧
      (cancelled = true →
        value e (vboxAuxSendHGCMRequest lay port r.type r.size) m = verrTimeout) := by
  rw [vboxAuxSendHGCMRequest]
  have hsend (m' : Machine) (hm' : m'.shared.request = (m.shared.request.put32 offFlags 0).put32
      offResult (vinfSuccess.signExtend 32)) :
      Sends e lay port (vboxAuxSendRequest lay port r.type r.size) m' [r] := by
    refine ⟨_, emits_sendRequest e lay port r.type r.size m', ?_⟩
    rw [hm']
    exact .cons ⟨rfl, rfl, Request.carried_serviceBlock hr hfilled⟩ .nil
  have hcancel (m' : Machine) : Sends e lay port (do
      store32 offFlags 0
      let _ ← vboxAuxSendRequest lay port reqHgcmCancel (BitVec.ofNat 16 hgcmHeaderSize)
      return verrTimeout) m' [.cancel] := by
    refine (silent_store32 _ _).bind_sends (Sends.of_bind_silent ?_ fun _ => Silent.ret _)
    refine sends_sendRequest (r := .cancel) rfl ⟨?_, List.forall_mem_nil _⟩
    intro f hf
    rw [Request.words, List.mem_singleton] at hf
    rw [hf]
    exact Mem.get32_put32 ..
  -- what comes behind the request
  have hrest (ret : BitVec 16) (m' : Machine) (p : Code (BitVec 16)) (hp : p =
      if ret ≠ vinfSuccess ∧ ret ≠ vinfHgcmAsyncExecute then return ret
      else if ret = vinfHgcmAsyncExecute then do
        if ← waitDone asyncTimeout then
          return vinfSuccess
        else
          store32 offFlags 0
          let _ ← vboxAuxSendRequest lay port reqHgcmCancel (BitVec.ofNat 16 hgcmHeaderSize)
          return verrTimeout
      else return vinfSuccess) : ∃ cancelled : Bool,
        Sends e lay port p m' (if cancelled then [.cancel] else []) ∧
          (cancelled = true → value e p m' = verrTimeout) := by
    subst hp
    have hnothing {a : BitVec 16} : ∃ cancelled : Bool,
        Sends e lay port (Program.ret a) m' (if cancelled then [.cancel] else []) ∧
          (cancelled = true → value e (Program.ret a : Code (BitVec 16)) m' = verrTimeout) :=
      ⟨false, (Silent.ret a).sends _, fun h => absurd h Bool.false_ne_true⟩
    split_ifs
    · exact hnothing
    · cases hdone : value e (waitDone asyncTimeout) m' with
      | true =>
          refine ⟨false, (silent_waitDone _).bind_sends ?_, fun h => absurd h Bool.false_ne_true⟩
          rw [hdone, if_pos rfl]
          exact (Silent.ret _).sends _
      | false =>
          refine ⟨true, (silent_waitDone _).bind_sends ?_, fun _ => ?_⟩
          · rw [hdone, if_neg Bool.false_ne_true]
            exact hcancel _
          · rw [value_bind, hdone, if_neg Bool.false_ne_true]
            rfl
    · exact hnothing
  obtain ⟨cancelled, hcancelled, hvalue⟩ := hrest _ _ _ rfl
  refine ⟨cancelled, (silent_store32 _ _).bind_sends ((silent_store32 _ _).bind_sends
    ((hsend _ rfl).bind hcancelled)), fun h => ?_⟩
  rw [value_bind, value_bind, value_bind]
  exact hvalue h

/-! ### The entry points -/

theorem filled_reportGuestInfo2 (b : Mem) : Request.Filled .reportGuestInfo2
    ((((((b.put16 24 4).put16 (24 + 2) 0).put32 28 0).put32 32 0).put32 36 0).write 40
      (cstring "4.0.0_VBSMOUNT-0.1")) := by
  rw [Mem.put16_put16]
  refine ⟨?_, ?_⟩
  · simp only [Request.words, List.forall_mem_cons]
    simp (disch := decide) only [Mem.get32_write_of_disjoint, Mem.get32_put32_of_disjoint,
      Mem.get32_put32, true_and]
    exact ⟨by decide, List.forall_mem_nil _⟩
  · simp only [Request.strings, List.forall_mem_cons]
    exact ⟨Mem.contains_write _ _ _, List.forall_mem_nil _⟩

theorem filled_reportGuestInfo (b : Mem) :
    Request.Filled .reportGuestInfo ((b.put32 24 vmmdevVersion).put32 28 vboxOstypeDos) := by
  refine ⟨?_, List.forall_mem_nil _⟩
  simp only [Request.words, List.forall_mem_cons]
  simp (disch := decide) only [Mem.get32_put32_of_disjoint, Mem.get32_put32, true_and]
  exact List.forall_mem_nil _

theorem filled_getHostVersion (b : Mem) : Request.Filled .getHostVersion b :=
  ⟨List.forall_mem_nil _, List.forall_mem_nil _⟩

theorem sends_reportGuestInfo2 (m : Machine) :
    Sends e lay port (vboxAuxReportGuestInfo2 lay port) m [.reportGuestInfo2] := by
  refine (silent_store16 _ _).bind_sends ((silent_store16 _ _).bind_sends ?_)
  refine (silent_store32 _ _).bind_sends ((silent_store32 _ _).bind_sends ?_)
  refine (silent_store32 _ _).bind_sends ((silent_storeStr _ _).bind_sends ?_)
  exact sends_sendRequest (r := .reportGuestInfo2) rfl (filled_reportGuestInfo2 m.shared.request)

theorem sends_reportGuestInfo (m : Machine) :
    Sends e lay port (vboxAuxReportGuestInfo lay port) m [.reportGuestInfo] := by
  refine (silent_store32 _ _).bind_sends ((silent_store32 _ _).bind_sends ?_)
  exact sends_sendRequest (r := .reportGuestInfo) rfl (filled_reportGuestInfo m.shared.request)

theorem sends_getVersion (m : Machine) :
    Sends e lay port (vboxAuxGetVersion lay port) m [.getHostVersion] := by
  refine Sends.of_bind_silent
    (sends_sendRequest (r := .getHostVersion) rfl (filled_getHostVersion _)) fun ret => ?_
  exact (Silent.ret _).ite (Silent.ret _)

/-- A function that fills in a request for a service, sends it, and looks at the answer. -/
theorem sends_service {r : Request} {fill : Code Unit} {look : BitVec 16 → Code α}
    (hr : r.toService = true) (hfill : Silent e fill)
    (hfilled : r.Filled (after e fill m).shared.request) (hlook : ∀ ret, Silent e (look ret)) :
    ∃ cancelled, Sends e lay port
      (do fill; look (← vboxAuxSendHGCMRequest lay port r.type r.size)) m
      (exchange r cancelled) := by
  obtain ⟨cancelled, hsend, -⟩ : ∃ cancelled, Sends e lay port
      (vboxAuxSendHGCMRequest lay port r.type r.size) (after e fill m) (exchange r cancelled) ∧ _ :=
    sends_sendHGCMRequest hr hfilled
  exact ⟨cancelled, hfill.bind_sends (hsend.of_bind_silent hlook)⟩

variable (e lay) in
theorem filled_connect (m : Machine) :
    Request.Filled .connect (after e fillHgcmConnect m).shared.request := by
  change Request.Filled _ ((m.shared.request.put32 32 2).write 36 (cstring "VBoxSharedFolders"))
  refine ⟨?_, ?_⟩
  · simp only [Request.words, List.forall_mem_cons]
    simp (disch := decide) only [Mem.get32_write_of_disjoint, Mem.get32_put32, true_and]
    exact List.forall_mem_nil _
  · simp only [Request.strings, List.forall_mem_cons]
    exact ⟨Mem.contains_write _ _ _, List.forall_mem_nil _⟩

variable (e lay) in
theorem filled_queryMappings (clientId numMappings : BitVec 32) (m : Machine) :
    Request.Filled (.queryMappings clientId numMappings (mkLinear m.s lay.mappings))
      (after e (fillQueryMappings lay clientId numMappings) m).shared.request := by
  refine ⟨?_, List.forall_mem_nil _⟩
  change ∀ f ∈ Request.words _, (((((((((((m.shared.request.put32 offClientId clientId).put32
    offFunction shflFnQueryMappings).put32 offCParms 3).put32 44 parmtype32bit).put32 48 0).put32 56
    parmtype32bit).put32 60 numMappings).put32 68 parmtypeLinaddr).put32 72
    (numMappings * 8)).put32 offMappingsAddr (mkLinear m.s lay.mappings))).get32 f.1 = f.2
  simp only [Request.words, List.forall_mem_cons]
  simp (disch := decide) only [Mem.get32_put32_of_disjoint, Mem.get32_put32]
  simp

variable (e lay) in
theorem filled_queryMapName (clientId root ptrSize : BitVec 32) (m : Machine) :
    Request.Filled (.queryMapName clientId root ptrSize (mkLinear m.s lay.shfNameBuf))
      (after e (fillQueryMapName lay clientId root ptrSize) m).shared.request := by
  refine ⟨?_, List.forall_mem_nil _⟩
  change ∀ f ∈ Request.words _, ((((((((m.shared.request.put32 offClientId clientId).put32
    offFunction shflFnQueryMapName).put32 offCParms 2).put32 44 parmtype32bit).put32 48 root).put32
    56 parmtypeLinaddr).put32 60 ptrSize).put32 offNameAddr
    (mkLinear m.s lay.shfNameBuf)).get32 f.1 = f.2
  simp only [Request.words, List.forall_mem_cons]
  simp (disch := decide) only [Mem.get32_put32_of_disjoint, Mem.get32_put32]
  simp

theorem silent_fillHgcmConnect : Silent e fillHgcmConnect :=
  (silent_store32 _ _).bind fun _ => silent_storeStr _ _

/-- What a function looks at behind a success. -/
theorem silent_look {ret : BitVec 16} {p : BitVec 32 → Code α} {a : α}
    (hp : ∀ result, Silent e (p result)) :
    Silent e (if ret = vinfSuccess then load32 offResult >>= p else Program.ret a) :=
  Silent.ite ((silent_load32 _).bind hp) (Silent.ret a)

/-- What a function looks at when the result is one that it goes on with. -/
theorem silent_lookFurther {c : Prop} [Decidable c] {o : ℕ} {f : BitVec 32 → α} {a : α} :
    Silent e (if c then load32 o >>= fun v => Program.ret (f v) else Program.ret a) :=
  Silent.ite ((silent_load32 o).bind fun v => Silent.ret (f v)) (Silent.ret a)

theorem sends_beginSession (clientId : BitVec 32) (m : Machine) : ∃ cancelled,
    Sends e lay port (vboxAuxBeginSession lay port clientId) m (exchange .connect cancelled) :=
  sends_service (r := .connect) rfl silent_fillHgcmConnect (filled_connect e m)
    fun _ => silent_look fun _ => silent_lookFurther

theorem sends_endSession (clientId : BitVec 32) (m : Machine) : ∃ cancelled,
    Sends e lay port (vboxAuxEndSession lay port clientId) m
      (exchange (.disconnect clientId) cancelled) := by
  refine sends_service (r := .disconnect clientId) rfl (silent_store32 _ _)
    ⟨?_, List.forall_mem_nil _⟩ fun ret => Silent.ret _
  intro f hf
  rw [Request.words, List.mem_singleton] at hf
  rw [hf]
  exact Mem.get32_put32 ..

theorem sends_shflGetMappings (clientId numMappings : BitVec 32) (m : Machine) : ∃ cancelled,
    Sends e lay port (vboxAuxShflGetMappings lay port clientId numMappings) m
      (exchange (.queryMappings clientId numMappings (mkLinear m.s lay.mappings)) cancelled) :=
  sends_service (r := .queryMappings clientId numMappings (mkLinear m.s lay.mappings)) rfl
    (silent_fillQueryMappings e lay _ _) (filled_queryMappings e lay clientId numMappings m)
    fun _ => silent_look fun _ => silent_lookFurther

theorem sends_shflGetMapName (clientId root ptrSize : BitVec 32) (m : Machine) : ∃ cancelled,
    Sends e lay port (vboxAuxShflGetMapName lay port clientId root ptrSize) m
      (exchange (.queryMapName clientId root ptrSize (mkLinear m.s lay.shfNameBuf)) cancelled) :=
  sends_service (r := .queryMapName clientId root ptrSize (mkLinear m.s lay.shfNameBuf)) rfl
    (silent_fillQueryMapName e lay _ _ _) (filled_queryMapName e lay clientId root ptrSize m)
    fun _ => silent_look fun _ => Silent.ret _

end Sends

end VmmDev

end Vbsmount

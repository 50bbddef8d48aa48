/-
**The VMM device, and how requests are sent to it (`vmmdev.h`, `outpd.h`, `vboxaux.c`).**

All requests are built in one static block, `request`, a union of the request records, whose linear
address is written to the port of the device.  The host answers in the same block, while the guest
waits for the port write or sits in a delay loop.  The functions that talk to it are programs over
the operations below.

Main definitions:

* `VmmDev.Op`, `VmmDev.ops` — what the transient functions do to memory, to the port, to the BIOS
  and to DOS;
* `Dos` — what the transient part sees of DOS and of the resident part;
* `VmmDev.Machine`, `VmmDev.Host`, `VmmDev.handle` — a machine next to an arbitrary host, and what
  each operation does to it;
* `VmmDev.vboxAuxSendRequest`, `VmmDev.vboxAuxSendHGCMRequest` — sending a request, and sending one
  to a service of the host and waiting for it.

Main results:

* `VmmDev.emits_sendRequest`, `VmmDev.emits_sendHGCMRequest` — what reaches the port, and what else
  changes.

The messages on the console are left out.
-/

import Vbsmount.Dos
import Vbsmount.Lib.Program

set_option relaxedAutoImplicit false
set_option autoImplicit false

namespace Vbsmount

open Bytes

/-! ### DOS and the resident part -/

/-- What the transient part sees of DOS and of the resident part. -/
structure Dos where
  lastDrive : BitVec 8
  currDir : ℕ → CDS
  /-- The record at a far address. -/
  signature : FarPtr → Signature
  /-- The vector of int 2Fh. -/
  vect2f : FarPtr
  /-- `*fpfpPrevInt2fHandler`. -/
  prevInt2fHandler : FarPtr
  /-- The drive whose CDS `fpCurrDir` points to; it is null before the first search. -/
  fpCurrDir : Option ℕ

namespace VmmDev

/-! ### Constants -/

def reqGetHostVersion : BitVec 16 := 4
def reqReportGuestInfo : BitVec 16 := 50
def reqReportGuestInfo2 : BitVec 16 := 58
def reqHgcmConnect : BitVec 16 := 60
def reqHgcmDisconnect : BitVec 16 := 61
def reqHgcmCall : BitVec 16 := 62
def reqHgcmCancel : BitVec 16 := 64

def vinfSuccess : BitVec 16 := 0
def verrNotImplemented : BitVec 16 := -12
def verrNotSupported : BitVec 16 := -37
def verrTimeout : BitVec 16 := -40
def vinfBufferOverflow : BitVec 16 := 41
def vinfHgcmAsyncExecute : BitVec 16 := 2903

def asyncTimeout : ℕ := 500

def requestHeaderVersion : BitVec 32 := 0x00010001

/-- `OK` and `FAIL`. -/
def ok : BitVec 16 := 0
def fail : BitVec 16 := -1

/-! ### The request block

The offsets are those of the packed records of the union. -/

def offSize : ℕ := 0
def offVersion : ℕ := 4
def offRequestType : ℕ := 8
def offRc : ℕ := 12
def offFlags : ℕ := 24
def offResult : ℕ := 28

/-- Where the header of a request to a service ends, and with it what the sending functions write. -/
def hgcmHeaderSize : ℕ := 32

/-- `u32ClientID` of a call and of a disconnect. -/
def offClientId : ℕ := 32

/-! ### Operations -/

/-- A call of the PCI BIOS, with what it takes in registers: `AX = B101h`, `B102h` and `B109h`. -/
inductive PciCall
  | installationCheck
  | findDevice (venid devid : BitVec 16)
  | readConfigWord (bus devFunc : BitVec 8) (offset : BitVec 16)

/-- The registers after a call of the BIOS. -/
structure PciRegs where
  ax : BitVec 16
  bx : BitVec 16
  cx : BitVec 16
  cflag : BitVec 16

/-- What a run has achieved, for statements about it: the marks are no actions of the program. -/
inductive Mark
  /-- `VBoxAuxBeginSession` has returned `OK`. -/
  | sessionOpened (pciPort : BitVec 16) (clientId : BitVec 32)
  /-- `VBoxAuxShflGetMappings` has returned. -/
  | gotMappings (ret : BitVec 16)
  /-- `VBoxAuxShflGetMapName` has returned. -/
  | gotMapName (ret : BitVec 16)
  /-- A request to a service begins. -/
  | callStarted
  /-- `VBoxAuxSendHGCMRequest` has returned, and the caller has read the result. -/
  | callReturned (ret : BitVec 16) (result : BitVec 32)
  deriving DecidableEq

/-- The operations of the transient functions. -/
inductive Op
  /-- Reads and writes in the request block. -/
  | load32 (o : ℕ)
  | store16 (o : ℕ) (v : BitVec 16)
  | store32 (o : ℕ) (v : BitVec 32)
  | storeStr (o : ℕ) (bs : List (BitVec 8))
  /-- `mappings[i].root`. -/
  | mappingRoot (i : ℕ)
  /-- `segread( &s )`. -/
  | segread
  /-- `s.ds`. -/
  | sDs
  | outpd (port : BitVec 16) (value : BitVec 32)
  /-- `delay( 1 )`. -/
  | delay
  /-- `int86( PCI_INTERRUPT, &r, &r )`. -/
  | int86 (c : PciCall)
  | getDos
  | setDos (d : Dos)
  | mark (m : Mark)

/-- The operations with their answers. -/
abbrev ops : OpSig where
  Op := Op
  Res
    | .load32 _ => BitVec 32
    | .mappingRoot _ => BitVec 32
    | .sDs => BitVec 16
    | .int86 _ => PciRegs
    | .getDos => Dos
    | _ => Unit

/-- Transient code. -/
abbrev Code (α : Type) := Program ops α

section Operations

def load32 (o : ℕ) : Code (BitVec 32) := Program.op (S := ops) (.load32 o)
def store16 (o : ℕ) (v : BitVec 16) : Code Unit := Program.op (S := ops) (.store16 o v)
def store32 (o : ℕ) (v : BitVec 32) : Code Unit := Program.op (S := ops) (.store32 o v)
def storeStr (o : ℕ) (bs : List (BitVec 8)) : Code Unit := Program.op (S := ops) (.storeStr o bs)
def mappingRoot (i : ℕ) : Code (BitVec 32) := Program.op (S := ops) (.mappingRoot i)
def segread : Code Unit := Program.op (S := ops) .segread
def sDs : Code (BitVec 16) := Program.op (S := ops) .sDs
def outpd (port : BitVec 16) (value : BitVec 32) : Code Unit :=
  Program.op (S := ops) (.outpd port value)
def delay : Code Unit := Program.op (S := ops) .delay
def int86 (c : PciCall) : Code PciRegs := Program.op (S := ops) (.int86 c)
def getDos : Code Dos := Program.op (S := ops) .getDos
def setDos (d : Dos) : Code Unit := Program.op (S := ops) (.setDos d)
def mark (m : Mark) : Code Unit := Program.op (S := ops) (.mark m)

end Operations

/-! ### Sending requests -/

/-- The near addresses, in the data segment, of what the host is told to read or write. -/
structure Layout where
  request : BitVec 16
  mappings : BitVec 16
  shfNameBuf : BitVec 16

section Sending

variable (lay : Layout)

/-- `VBoxAuxSendRequest`. -/
def vboxAuxSendRequest (pciPort : BitVec 16) (type size : BitVec 16) : Code (BitVec 16) := do
  store32 offSize (size.setWidth 32)
  store32 offVersion requestHeaderVersion
  store32 offRequestType (type.signExtend 32)
  store32 offRc (vinfSuccess.signExtend 32)
  let ds ← sDs
  outpd pciPort (mkLinear ds lay.request)
  let rc ← load32 offRc
  return rc.setWidth 16

/-- `for ( ; wait_ms ; --wait_ms ) { delay( 1 ); if ( req->flags & 1 ) break; }`, and whether it
was left by the `break`. -/
def waitDone : ℕ → Code Bool
  | 0 => return false
  | waitMs + 1 => do
      delay
      let flags ← load32 offFlags
      if flags &&& 1 ≠ 0 then return true else waitDone waitMs

/-- `VBoxAuxSendHGCMRequest`. -/
def vboxAuxSendHGCMRequest (pciPort : BitVec 16) (type size : BitVec 16) :
    Code (BitVec 16) := do
  store32 offFlags 0
  store32 offResult (vinfSuccess.signExtend 32)
  let ret ← vboxAuxSendRequest lay pciPort type size
  if ret ≠ vinfSuccess ∧ ret ≠ vinfHgcmAsyncExecute then
    return ret
  else if ret = vinfHgcmAsyncExecute then
    if ← waitDone asyncTimeout then
      return vinfSuccess
    else
      store32 offFlags 0
      let _ ← vboxAuxSendRequest lay pciPort reqHgcmCancel (BitVec.ofNat 16 hgcmHeaderSize)
      return verrTimeout
  else
    return vinfSuccess

end Sending

/-! ### A machine next to its host -/

/-- A write to a port, and what is in the request block at that moment. -/
structure PortWrite where
  port : BitVec 16
  value : BitVec 32
  block : Mem

/-- The request type in the header. -/
def PortWrite.type (w : PortWrite) : BitVec 32 := w.block.get32 offRequestType

/-- The client id in a call or a disconnect. -/
def PortWrite.clientId (w : PortWrite) : BitVec 32 := w.block.get32 offClientId

/-- What is recorded of a run. -/
inductive Event
  | out (w : PortWrite)
  | mark (m : Mark)

/-- The memory the host writes to: the request block and the roots in `mappings`. -/
structure Shared where
  request : Mem
  mappings : ℕ → BitVec 32

/-- A host: what it does to the shared memory when a port is written to and during a delay, and
what its BIOS answers.  It may behave differently every time. -/
structure Host where
  onOut : ℕ → PortWrite → Shared → Shared
  onDelay : ℕ → Shared → Shared
  bios : ℕ → PciCall → PciRegs

/-- What surrounds a run: the data segment of the program, and the host. -/
structure Env where
  ds : BitVec 16
  host : Host

/-- The state of a run: shared memory, `s.ds`, DOS, the number of the host's turns so far, and what
has been recorded. -/
structure Machine where
  shared : Shared
  s : BitVec 16
  dos : Dos
  turn : ℕ
  trace : List Event

/-- What an operation answers and does. -/
def handle (e : Env) : (o : Op) → Machine → ops.Res o × Machine
  | .load32 o, m => (m.shared.request.get32 o, m)
  | .store16 o v, m =>
      ((), { m with shared := { m.shared with request := m.shared.request.put16 o v } })
  | .store32 o v, m =>
      ((), { m with shared := { m.shared with request := m.shared.request.put32 o v } })
  | .storeStr o bs, m =>
      ((), { m with shared := { m.shared with request := m.shared.request.write o bs } })
  | .mappingRoot i, m => (m.shared.mappings i, m)
  | .segread, m => ((), { m with s := e.ds })
  | .sDs, m => (m.s, m)
  | .outpd port value, m =>
      let w : PortWrite := ⟨port, value, m.shared.request⟩
      ((), { m with
        shared := e.host.onOut m.turn w m.shared
        turn := m.turn + 1
        trace := m.trace ++ [.out w] })
  | .delay, m => ((), { m with shared := e.host.onDelay m.turn m.shared, turn := m.turn + 1 })
  | .int86 c, m => (e.host.bios m.turn c, { m with turn := m.turn + 1 })
  | .getDos, m => (m.dos, m)
  | .setDos d, m => ((), { m with dos := d })
  | .mark k, m => ((), { m with trace := m.trace ++ [.mark k] })

/-! ### Runs -/

/-- The state after transient code. -/
def after {α : Type} (e : Env) (p : Code α) (m : Machine) : Machine :=
  (Program.run (handle e) p m).2

/-- The value of transient code. -/
def value {α : Type} (e : Env) (p : Code α) (m : Machine) : α :=
  (Program.run (handle e) p m).1

/-- Two states of a run: what has been recorded in between, and that `s` and DOS are as before. -/
structure Emits (m : Machine) (es : List Event) (m' : Machine) : Prop where
  trace : m'.trace = m.trace ++ es
  s : m'.s = m.s
  dos : m'.dos = m.dos

theorem Emits.refl (m : Machine) : Emits m [] m := ⟨(List.append_nil _).symm, rfl, rfl⟩

theorem Emits.trans {m₁ m₂ m₃ : Machine} {es fs : List Event} (h : Emits m₁ es m₂)
    (h' : Emits m₂ fs m₃) : Emits m₁ (es ++ fs) m₃ where
  trace := by rw [h'.trace, h.trace, List.append_assoc]
  s := h'.s.trans h.s
  dos := h'.dos.trans h.dos

section Run

variable (e : Env) {α β : Type}

theorem after_bind (p : Code α) (f : α → Code β) (m : Machine) :
    after e (p >>= f) m = after e (f (value e p m)) (after e p m) := by
  rw [after, Program.run_bind]
  rfl

theorem value_bind (p : Code α) (f : α → Code β) (m : Machine) :
    value e (p >>= f) m = value e (f (value e p m)) (after e p m) := by
  rw [value, Program.run_bind]
  rfl

/-- A sequence, from what its parts record. -/
theorem emits_bind {p : Code α} {f : α → Code β} {m : Machine} {es fs : List Event}
    (hp : Emits m es (after e p m))
    (hf : Emits (after e p m) fs
      (after e (f (value e p m)) (after e p m))) :
    Emits m (es ++ fs) (after e (p >>= f) m) := by
  rw [after_bind]
  exact hp.trans hf

/-- Code that records nothing. -/
def Silent (p : Code α) : Prop := ∀ m, Emits m [] (after e p m)

section Silent

variable {e}

theorem Silent.ret (a : α) : Silent e (Program.ret a) := Emits.refl

theorem Silent.bind {p : Code α} {f : α → Code β} (hp : Silent e p)
    (hf : ∀ a, Silent e (f a)) : Silent e (p >>= f) :=
  fun m => emits_bind e (hp m) (hf _ _)

theorem Silent.ite {c : Prop} [Decidable c] {p q : Code α} (hp : Silent e p)
    (hq : Silent e q) : Silent e (if c then p else q) := by
  split_ifs
  · exact hp
  · exact hq

/-- Silent code behind code that is not. -/
theorem Silent.emits_bind {p : Code α} {f : α → Code β} {m : Machine} {es : List Event}
    (hf : ∀ a, Silent e (f a)) (hp : Emits m es (after e p m)) :
    Emits m es (after e (p >>= f) m) := by
  have h := VmmDev.emits_bind e hp (hf _ _)
  rwa [List.append_nil] at h

theorem emits_nil {p : Code α} {m : Machine} (htrace : (after e p m).trace = m.trace)
    (hs : (after e p m).s = m.s) (hdos : (after e p m).dos = m.dos) :
    Emits m [] (after e p m) :=
  ⟨by rw [htrace, List.append_nil], hs, hdos⟩

theorem silent_load32 (o : ℕ) : Silent e (load32 o) := fun _ => emits_nil rfl rfl rfl

theorem silent_store16 (o : ℕ) (v : BitVec 16) : Silent e (store16 o v) :=
  fun _ => emits_nil rfl rfl rfl

theorem silent_store32 (o : ℕ) (v : BitVec 32) : Silent e (store32 o v) :=
  fun _ => emits_nil rfl rfl rfl

theorem silent_storeStr (o : ℕ) (bs : List (BitVec 8)) : Silent e (storeStr o bs) :=
  fun _ => emits_nil rfl rfl rfl

theorem silent_mappingRoot (i : ℕ) : Silent e (mappingRoot i) :=
  fun _ => emits_nil rfl rfl rfl

theorem silent_delay : Silent e delay := fun _ => emits_nil rfl rfl rfl

theorem silent_int86 (c : PciCall) : Silent e (int86 c) := fun _ => emits_nil rfl rfl rfl

/-- Waiting writes to no port. -/
theorem silent_waitDone (waitMs : ℕ) : Silent e (waitDone waitMs) := by
  induction waitMs with
  | zero => exact Silent.ret false
  | succ waitMs ih =>
      exact silent_delay.bind fun _ => (silent_load32 _).bind fun _ => (Silent.ret true).ite ih

end Silent

variable (lay : Layout)

/-- What `VBoxAuxSendRequest` writes into the header. -/
def withHeader (type size : BitVec 16) (request : Mem) : Mem :=
  (((request.put32 offSize (size.setWidth 32)).put32 offVersion requestHeaderVersion).put32
    offRequestType (type.signExtend 32)).put32 offRc (vinfSuccess.signExtend 32)

theorem withHeader_type (type size : BitVec 16) (request : Mem) :
    (withHeader type size request).get32 offRequestType = type.signExtend 32 := by
  rw [withHeader, Mem.get32_put32_of_disjoint (by decide), Mem.get32_put32]

theorem withHeader_agree (type size : BitVec 16) (request : Mem) :
    Mem.AgreeFrom 16 (withHeader type size request) request :=
  ((Mem.agreeFrom_put32 (by decide) _ _).trans (Mem.agreeFrom_put32 (by decide) _ _)).trans
    ((Mem.agreeFrom_put32 (by decide) _ _).trans (Mem.agreeFrom_put32 (by decide) _ _))

/-- One write to the port, with the given type in the header. -/
theorem emits_sendRequest (pciPort type size : BitVec 16) (m : Machine) :
    Emits m [.out ⟨pciPort, mkLinear m.s lay.request, withHeader type size m.shared.request⟩]
      (after e (vboxAuxSendRequest lay pciPort type size) m) :=
  ⟨rfl, rfl, rfl⟩

/-- The writes of one request to a service: the request, with `P` known of the block, and at most
its cancellation behind it. -/
def IsServiceCall (pciPort : BitVec 16) (addr : BitVec 32) (type : BitVec 16) (P : Mem → Prop)
    (es : List Event) : Prop :=
  ∃ b, b.get32 offRequestType = type.signExtend 32 ∧ P b ∧
    (es = [.out ⟨pciPort, addr, b⟩] ∨ ∃ b', b'.get32 offRequestType = reqHgcmCancel.signExtend 32 ∧
      es = [.out ⟨pciPort, addr, b⟩, .out ⟨pciPort, addr, b'⟩])

theorem IsServiceCall.mono {pciPort : BitVec 16} {addr : BitVec 32} {type : BitVec 16}
    {P Q : Mem → Prop} {es : List Event} (h : IsServiceCall pciPort addr type P es)
    (hPQ : ∀ b, P b → Q b) : IsServiceCall pciPort addr type Q es := by
  obtain ⟨b, htype, hP, hes⟩ := h
  exact ⟨b, htype, hPQ b hP, hes⟩

/-- No other port is written. -/
theorem IsServiceCall.port_eq {pciPort : BitVec 16} {addr : BitVec 32} {type : BitVec 16}
    {P : Mem → Prop} {es : List Event} (h : IsServiceCall pciPort addr type P es) {w : PortWrite}
    (hw : .out w ∈ es) : w.port = pciPort := by
  obtain ⟨b, -, -, rfl | ⟨b', -, rfl⟩⟩ := h
  · cases hw with
    | head => rfl
    | tail _ hw => cases hw
  · cases hw with
    | head => rfl
    | tail _ hw =>
        cases hw with
        | head => rfl
        | tail _ hw => cases hw

/-- What `VBoxAuxSendHGCMRequest` sends, with the fields behind the header as the caller has stored
them. -/
theorem emits_sendHGCMRequest (pciPort type size : BitVec 16) (m : Machine) :
    ∃ es, Emits m es (after e (vboxAuxSendHGCMRequest lay pciPort type size) m) ∧
      IsServiceCall pciPort (mkLinear m.s lay.request) type
        (fun b => Mem.AgreeFrom hgcmHeaderSize b m.shared.request) es := by
  rw [vboxAuxSendHGCMRequest, after_bind, after_bind, after_bind]
  have hstart : Emits m [] (after e (store32 offResult (vinfSuccess.signExtend 32))
      (after e (store32 offFlags 0) m)) :=
    (silent_store32 _ _ m).trans (silent_store32 _ _ _)
  have hpayload : Mem.AgreeFrom hgcmHeaderSize
      (after e (store32 offResult (vinfSuccess.signExtend 32))
        (after e (store32 offFlags 0) m)).shared.request m.shared.request :=
    (Mem.agreeFrom_put32 (by decide) _ _).trans (Mem.agreeFrom_put32 (by decide) _ _)
  generalize after e (store32 offResult (vinfSuccess.signExtend 32))
    (after e (store32 offFlags 0) m) = m₁ at hstart hpayload
  have hsend := hstart.trans
    (emits_sendRequest e lay pciPort type size m₁)
  have hblock : Mem.AgreeFrom hgcmHeaderSize (withHeader type size m₁.shared.request)
      m.shared.request :=
    ((withHeader_agree type size _).mono (by decide)).trans hpayload
  rw [hstart.s, List.nil_append] at hsend
  have htype := withHeader_type type size m₁.shared.request
  split_ifs with hfailed hasync
  · exact ⟨_, hsend, _, htype, hblock, Or.inl rfl⟩
  · rw [after_bind]
    have hwait := hsend.trans (silent_waitDone (e := e) asyncTimeout _)
    rw [List.append_nil] at hwait
    split_ifs with hdone
    · exact ⟨_, hwait, _, htype, hblock, Or.inl rfl⟩
    · -- the wait has run out: the cancellation goes through the same block
      rw [after_bind, after_bind]
      have hclear := hwait.trans (silent_store32 (e := e) offFlags 0 _)
      have hcancel := hclear.trans (emits_sendRequest e lay
        pciPort reqHgcmCancel (BitVec.ofNat 16 hgcmHeaderSize) _)
      rw [List.append_nil, hclear.s] at hcancel
      exact ⟨_, hcancel, _, htype, hblock, Or.inr ⟨_, withHeader_type _ _ _, rfl⟩⟩
  · exact ⟨_, hsend, _, htype, hblock, Or.inl rfl⟩

end Run

end VmmDev

end Vbsmount

/-
**The functions that are called before going resident (`vboxaux.c`, `pci.c`).**

The transient part finds the VMM device through the PCI BIOS, reports itself to the host, opens a
session of the shared folders service, asks for the list of shares and for their names, and closes
the session.  An argument that the source passes by address is passed by value here, and its new
value is returned next to the result.

Main definitions:

* `VmmDev.pciCheck`, `VmmDev.pciFindDevice`, `VmmDev.pciGetIobase` — the PCI BIOS;
* `VmmDev.vboxAuxInitVirtual`, `VmmDev.vboxAuxBeginSession`, `VmmDev.vboxAuxShflGetMappings`,
  `VmmDev.vboxAuxShflGetMapName`, `VmmDev.vboxAuxEndSession` — the entry points, under their names.

Main results:

* `VmmDev.initVirtual_spec`, `VmmDev.emits_beginSession`, `VmmDev.emits_shflGetMappings`,
  `VmmDev.emits_shflGetMapName`, `VmmDev.emits_endSession` — what each entry point writes to the
  port.
-/

import Vbsmount.VmmDev

set_option relaxedAutoImplicit false
set_option autoImplicit false

namespace Vbsmount

namespace VmmDev

open Bytes

/-! ### The PCI BIOS -/

/-- `pci_check`: the last bus, or -1. -/
def pciCheck : Code (BitVec 16) := do
  let r ← int86 .installationCheck
  if r.ax.extractLsb' 8 8 = 0 then return (r.cx.extractLsb' 0 8).setWidth 16 else return -1

/-- `pci_find_device`: the carry flag, bus and device. -/
def pciFindDevice (venid devid : BitVec 16) : Code (BitVec 16 × BitVec 8 × BitVec 8) := do
  let r ← int86 (.findDevice venid devid)
  return (r.cflag, r.bx.extractLsb' 8 8, r.bx.extractLsb' 0 8)

/-- `PCI_OFFSET_IOBASE`. -/
def pciOffsetIobase : BitVec 16 := 0x0010

/-- `PCI_IO_ADDR_MASK`. -/
def pciIoAddrMask : BitVec 16 := 0xFFFE

/-- `pci_get_iobase`. -/
def pciGetIobase (bus devFunc : BitVec 8) (port : BitVec 16) : Code (BitVec 16 × BitVec 16) := do
  let r ← int86 (.readConfigWord bus devFunc pciOffsetIobase)
  if r.cflag ≠ 0 then return (-1, port) else return (0, r.cx &&& pciIoAddrMask)

/-! ### Reporting to the host -/

/-- `VBOX_OSTYPE_DOS`. -/
def vboxOstypeDos : BitVec 32 := 0x00010000

/-- `VMMDEV_VERSION`. -/
def vmmdevVersion : BitVec 32 := 0x00010004

section Reporting

variable (lay : Layout)

/-- `VBoxAuxReportGuestInfo2`. -/
def vboxAuxReportGuestInfo2 (pciPort : BitVec 16) : Code (BitVec 16) := do
  store16 24 4
  store16 26 0
  store32 28 0
  store32 32 0
  store32 36 0
  storeStr 40 (cstring "4.0.0_VBSMOUNT-0.1")
  vboxAuxSendRequest lay pciPort reqReportGuestInfo2 168

/-- `VBoxAuxReportGuestInfo`. -/
def vboxAuxReportGuestInfo (pciPort : BitVec 16) : Code (BitVec 16) := do
  store32 24 vmmdevVersion
  store32 28 vboxOstypeDos
  vboxAuxSendRequest lay pciPort reqReportGuestInfo 32

/-- `VMMDEV_PCI_VENDOR`. -/
def vmmdevPciVendor : BitVec 16 := 0x80EE

/-- `VMMDEV_PCI_DEVICE`. -/
def vmmdevPciDevice : BitVec 16 := 0xCAFE

/-- The reports of `VBoxAuxVBoxBackdoorInit`, once the port is known. -/
def reportGuest (pciPort : BitVec 16) : Code (BitVec 16) := do
  let ret ← vboxAuxReportGuestInfo2 lay pciPort
  let ret ←
    if ret = vinfSuccess ∨ ret = verrNotSupported ∨ ret = verrNotImplemented then
      vboxAuxReportGuestInfo lay pciPort
    else pure ret
  if ret ≠ vinfSuccess then return fail else return ok

/-- `VBoxAuxVBoxBackdoorInit`. -/
def vboxAuxVBoxBackdoorInit (pciPort : BitVec 16) : Code (BitVec 16 × BitVec 16) := do
  let maxbus ← pciCheck
  if maxbus.slt 0 then return (fail, pciPort)
  else
    let (ret, bus, devFunc) ← pciFindDevice vmmdevPciVendor vmmdevPciDevice
    if ret ≠ 0 then return (fail, pciPort)
    else
      let (ret, pciPort) ← pciGetIobase bus devFunc pciPort
      if ret ≠ 0 then return (fail, pciPort)
      else
        let ret ← reportGuest lay pciPort
        return (ret, pciPort)

/-- `VBoxAuxGetVersion`. -/
def vboxAuxGetVersion (pciPort : BitVec 16) : Code (BitVec 16) := do
  let ret ← vboxAuxSendRequest lay pciPort reqGetHostVersion 40
  if ret = vinfSuccess then return ok else return fail

/-- `VBoxAuxInitVirtual`. -/
def vboxAuxInitVirtual (pciPort : BitVec 16) : Code (BitVec 16 × BitVec 16) := do
  segread
  let (ret, pciPort) ← vboxAuxVBoxBackdoorInit lay pciPort
  if ret ≠ 0 then return (ret, pciPort)
  else
    let ret ← vboxAuxGetVersion lay pciPort
    return (ret, pciPort)

end Reporting

/-! ### The shared folders service -/

/-- `u32Function` and `cParms` of a call. -/
def offFunction : ℕ := 36
def offCParms : ℕ := 40

/-- Where the linear address stands in a query for the mappings, and in one for a name. -/
def offMappingsAddr : ℕ := 76
def offNameAddr : ℕ := 64

def shflFnQueryMappings : BitVec 32 := 1
def shflFnQueryMapName : BitVec 32 := 2

/-- `SHFL_MAX_MAPPINGS`. -/
def shflMaxMappings : BitVec 32 := 64

/-- `VMMDEV_HGCM_PARMTYPE_32BIT`. -/
def parmtype32bit : BitVec 32 := 1

/-- `VMMDEV_HGCM_PARMTYPE_LINADDR`. -/
def parmtypeLinaddr : BitVec 32 := 4

section Service

variable (lay : Layout)

/-- The fields of `request.queryMappings`. -/
def fillQueryMappings (clientId numMappings : BitVec 32) : Code Unit := do
  store32 offClientId clientId
  store32 offFunction shflFnQueryMappings
  store32 offCParms 3
  -- flags: SHFL_MF_UCS2
  store32 44 parmtype32bit
  store32 48 0
  -- numberOfMappings
  store32 56 parmtype32bit
  store32 60 numMappings
  -- mappings
  store32 68 parmtypeLinaddr
  store32 72 (numMappings * 8)
  let ds ← sDs
  store32 offMappingsAddr (mkLinear ds lay.mappings)

/-- `VBoxAuxShflGetMappings`. -/
def vboxAuxShflGetMappings (pciPort : BitVec 16) (clientId numMappings : BitVec 32) :
    Code (BitVec 16 × BitVec 32) := do
  fillQueryMappings lay clientId numMappings
  let ret ← vboxAuxSendHGCMRequest lay pciPort reqHgcmCall 80
  if ret = vinfSuccess then
    let result ← load32 offResult
    let ret := result.setWidth 16
    if ret = vinfSuccess ∨ ret = vinfBufferOverflow then
      let numMappings ← load32 60
      return (ret, numMappings)
    else return (ret, numMappings)
  else return (ret, numMappings)

/-- The fields of `request.queryMapName`. -/
def fillQueryMapName (clientId root ptrSize : BitVec 32) : Code Unit := do
  store32 offClientId clientId
  store32 offFunction shflFnQueryMapName
  store32 offCParms 2
  -- root
  store32 44 parmtype32bit
  store32 48 root
  -- name
  store32 56 parmtypeLinaddr
  store32 60 ptrSize
  let ds ← sDs
  store32 offNameAddr (mkLinear ds lay.shfNameBuf)

/-- `VBoxAuxShflGetMapName`. -/
def vboxAuxShflGetMapName (pciPort : BitVec 16) (clientId root ptrSize : BitVec 32) :
    Code (BitVec 16) := do
  fillQueryMapName lay clientId root ptrSize
  let ret ← vboxAuxSendHGCMRequest lay pciPort reqHgcmCall 68
  if ret = vinfSuccess then
    let result ← load32 offResult
    return result.setWidth 16
  else return ret

/-- The fields of `request.hgcmConnect`; `type` is `VMMDEV_HGCM_SVCLOC_LOCALHOST_EXISTING`. -/
def fillHgcmConnect : Code Unit := do
  store32 32 2
  storeStr 36 (cstring "VBoxSharedFolders")

/-- `VBoxAuxBeginSession`. -/
def vboxAuxBeginSession (pciPort : BitVec 16) (clientId : BitVec 32) :
    Code (BitVec 16 × BitVec 32) := do
  fillHgcmConnect
  let ret ← vboxAuxSendHGCMRequest lay pciPort reqHgcmConnect 168
  if ret = vinfSuccess then
    let result ← load32 offResult
    let ret := result.setWidth 16
    if ret = vinfSuccess then
      let clientId ← load32 164
      return (ok, clientId)
    else return (fail, clientId)
  else return (fail, clientId)

/-- `VBoxAuxEndSession`. -/
def vboxAuxEndSession (pciPort : BitVec 16) (clientId : BitVec 32) : Code Unit := do
  store32 offClientId clientId
  let _ ← vboxAuxSendHGCMRequest lay pciPort reqHgcmDisconnect 36
  return ()

end Service

/-! ### What is written to the port -/

section Emits

variable (e : Env) (lay : Layout) (m : Machine)

variable {lay m} in
/-- A function that fills in the fields, sends the request, and looks at the answer. -/
theorem emits_service {α : Type} {fill : Code Unit} {look : BitVec 16 → Code α}
    {pciPort type size : BitVec 16} {P : Mem → Prop} (hfill : Silent e fill)
    (hlook : ∀ ret, Silent e (look ret))
    (hP : ∀ b, Mem.AgreeFrom hgcmHeaderSize b (after e fill m).shared.request → P b) :
    ∃ es, Emits m es (after e (do fill; look (← vboxAuxSendHGCMRequest lay pciPort type size)) m) ∧
      IsServiceCall pciPort (mkLinear m.s lay.request) type P es := by
  obtain ⟨es, hes, hcall⟩ := emits_sendHGCMRequest e lay pciPort type size (after e fill m)
  refine ⟨es, emits_bind e (hfill m) (Silent.emits_bind hlook hes), ?_⟩
  rw [(hfill m).s] at hcall
  exact hcall.mono hP

theorem emits_endSession (pciPort : BitVec 16) (clientId : BitVec 32) :
    ∃ es, Emits m es (after e (vboxAuxEndSession lay pciPort clientId) m) ∧
      IsServiceCall pciPort (mkLinear m.s lay.request) reqHgcmDisconnect
        (fun b => b.get32 offClientId = clientId) es := by
  refine emits_service e (silent_store32 _ _) (fun _ => Silent.ret _) fun b hb => ?_
  exact (hb.get32_eq (show hgcmHeaderSize ≤ offClientId from le_rfl)).trans (Mem.get32_put32 ..)

theorem emits_beginSession (pciPort : BitVec 16) (clientId : BitVec 32) :
    ∃ es, Emits m es (after e (vboxAuxBeginSession lay pciPort clientId) m) ∧
      IsServiceCall pciPort (mkLinear m.s lay.request) reqHgcmConnect (fun _ => True) es := by
  refine emits_service e ?_ (fun ret => ?_) fun _ _ => trivial
  · exact (silent_store32 _ _).bind fun _ => silent_storeStr _ _
  · refine Silent.ite ((silent_load32 _).bind fun result => ?_) (Silent.ret _)
    exact Silent.ite ((silent_load32 _).bind fun clientId => Silent.ret _) (Silent.ret _)

theorem silent_fillQueryMappings (clientId numMappings : BitVec 32) :
    Silent e (fillQueryMappings lay clientId numMappings) :=
  fun _ => emits_nil rfl rfl rfl

theorem silent_fillQueryMapName (clientId root ptrSize : BitVec 32) :
    Silent e (fillQueryMapName lay clientId root ptrSize) :=
  fun _ => emits_nil rfl rfl rfl

/-- A query of the given function stands in the request block, with the address of the caller's
buffer at the given offset. -/
structure Asks (function : BitVec 32) (offAddr : ℕ) (clientId addr : BitVec 32) (b : Mem) :
    Prop where
  clientId : b.get32 offClientId = clientId
  function : b.get32 offFunction = function
  addr : b.get32 offAddr = addr

/-- The query is as it was filled in when it is sent. -/
theorem Asks.congr {function clientId addr : BitVec 32} {offAddr : ℕ} {b b' : Mem}
    (ho : hgcmHeaderSize ≤ offAddr) (h : Asks function offAddr clientId addr b)
    (hb : Mem.AgreeFrom hgcmHeaderSize b' b) : Asks function offAddr clientId addr b' where
  clientId := (hb.get32_eq (by decide)).trans h.clientId
  function := (hb.get32_eq (by decide)).trans h.function
  addr := (hb.get32_eq ho).trans h.addr

/-- A query for the mappings. -/
def AsksMappings : BitVec 32 → BitVec 32 → Mem → Prop := Asks shflFnQueryMappings offMappingsAddr

/-- A query for a name. -/
def AsksMapName : BitVec 32 → BitVec 32 → Mem → Prop := Asks shflFnQueryMapName offNameAddr

theorem fillQueryMappings_asks (clientId numMappings : BitVec 32) :
    AsksMappings clientId (mkLinear m.s lay.mappings)
      (after e (fillQueryMappings lay clientId numMappings) m).shared.request := by
  have hrequest : (after e (fillQueryMappings lay clientId numMappings) m).shared.request =
      ((((((((((m.shared.request.put32 offClientId clientId).put32 offFunction
        shflFnQueryMappings).put32 offCParms 3).put32 44 parmtype32bit).put32 48 0).put32 56
        parmtype32bit).put32 60 numMappings).put32 68 parmtypeLinaddr).put32 72
        (numMappings * 8)).put32 offMappingsAddr (mkLinear m.s lay.mappings)) := rfl
  rw [hrequest]
  constructor
  · simp (disch := decide) only [Mem.get32_put32_of_disjoint, Mem.get32_put32]
  · simp (disch := decide) only [Mem.get32_put32_of_disjoint, Mem.get32_put32]
  · exact Mem.get32_put32 ..

theorem fillQueryMapName_asks (clientId root ptrSize : BitVec 32) :
    AsksMapName clientId (mkLinear m.s lay.shfNameBuf)
      (after e (fillQueryMapName lay clientId root ptrSize) m).shared.request := by
  have hrequest : (after e (fillQueryMapName lay clientId root ptrSize) m).shared.request =
      ((((((((m.shared.request.put32 offClientId clientId).put32 offFunction
        shflFnQueryMapName).put32 offCParms 2).put32 44 parmtype32bit).put32 48 root).put32 56
        parmtypeLinaddr).put32 60 ptrSize).put32 offNameAddr (mkLinear m.s lay.shfNameBuf)) := rfl
  rw [hrequest]
  constructor
  · simp (disch := decide) only [Mem.get32_put32_of_disjoint, Mem.get32_put32]
  · simp (disch := decide) only [Mem.get32_put32_of_disjoint, Mem.get32_put32]
  · exact Mem.get32_put32 ..

theorem emits_shflGetMappings (pciPort : BitVec 16) (clientId numMappings : BitVec 32) :
    ∃ es, Emits m es (after e (vboxAuxShflGetMappings lay pciPort clientId numMappings) m) ∧
      IsServiceCall pciPort (mkLinear m.s lay.request) reqHgcmCall
        (AsksMappings clientId (mkLinear m.s lay.mappings)) es := by
  refine emits_service e (silent_fillQueryMappings e lay _ _) (fun ret => ?_) fun b hb => ?_
  · refine Silent.ite ((silent_load32 _).bind fun result => ?_) (Silent.ret _)
    exact Silent.ite ((silent_load32 _).bind fun numMappings => Silent.ret _) (Silent.ret _)
  · exact (fillQueryMappings_asks e lay m clientId numMappings).congr (by decide) hb

theorem emits_shflGetMapName (pciPort : BitVec 16) (clientId root ptrSize : BitVec 32) :
    ∃ es, Emits m es (after e (vboxAuxShflGetMapName lay pciPort clientId root ptrSize) m) ∧
      IsServiceCall pciPort (mkLinear m.s lay.request) reqHgcmCall
        (AsksMapName clientId (mkLinear m.s lay.shfNameBuf)) es := by
  refine emits_service e (silent_fillQueryMapName e lay _ _ _) (fun ret => ?_) fun b hb => ?_
  · exact Silent.ite ((silent_load32 _).bind fun result => Silent.ret _) (Silent.ret _)
  · exact (fillQueryMapName_asks e lay m clientId root ptrSize).congr (by decide) hb

/-- A write of the address that is neither a call of a service nor a disconnect. -/
def IsReport (addr : BitVec 32) (ev : Event) : Prop :=
  ∃ w : PortWrite, ev = .out w ∧ w.value = addr ∧ w.type ≠ reqHgcmCall.signExtend 32 ∧
    w.type ≠ reqHgcmDisconnect.signExtend 32

/-- Code that reports to the host and does nothing else. -/
def Reports {α : Type} (p : Code α) : Prop :=
  ∀ m, ∃ es, Emits m es (after e p m) ∧ ∀ ev ∈ es, IsReport (mkLinear m.s lay.request) ev

variable {e lay}

theorem Silent.reports {α : Type} {p : Code α} (h : Silent e p) : Reports e lay p :=
  fun m => ⟨[], h m, fun _ hev => absurd hev List.not_mem_nil⟩

theorem Reports.bind {α β : Type} {p : Code α} {f : α → Code β} (hp : Reports e lay p)
    (hf : ∀ a, Reports e lay (f a)) : Reports e lay (p >>= f) := by
  intro m
  obtain ⟨es, hes, hes'⟩ := hp m
  obtain ⟨fs, hfs, hfs'⟩ := hf (value e p m) (after e p m)
  refine ⟨es ++ fs, emits_bind e hes hfs, fun ev hev => ?_⟩
  rcases List.mem_append.1 hev with hev | hev
  · exact hes' ev hev
  · rw [hes.s] at hfs'
    exact hfs' ev hev

theorem Reports.ite {α : Type} {c : Prop} [Decidable c] {p q : Code α} (hp : Reports e lay p)
    (hq : Reports e lay q) : Reports e lay (if c then p else q) := by
  split_ifs
  · exact hp
  · exact hq

theorem reports_sendRequest {pciPort type size : BitVec 16}
    (hcall : type.signExtend 32 ≠ reqHgcmCall.signExtend 32)
    (hdisconnect : type.signExtend 32 ≠ reqHgcmDisconnect.signExtend 32) :
    Reports e lay (vboxAuxSendRequest lay pciPort type size) := by
  intro m
  refine ⟨_, emits_sendRequest e lay pciPort type size m, fun ev hev => ?_⟩
  obtain rfl := List.mem_singleton.1 hev
  refine ⟨_, rfl, rfl, ?_, ?_⟩
  · rw [PortWrite.type, withHeader_type]
    exact hcall
  · rw [PortWrite.type, withHeader_type]
    exact hdisconnect

theorem reports_reportGuest (pciPort : BitVec 16) : Reports e lay (reportGuest lay pciPort) := by
  have hinfo2 : Reports e lay (vboxAuxReportGuestInfo2 lay pciPort) := by
    refine (silent_store16 _ _).reports.bind fun _ => ?_
    refine (silent_store16 _ _).reports.bind fun _ => ?_
    refine (silent_store32 _ _).reports.bind fun _ => ?_
    refine (silent_store32 _ _).reports.bind fun _ => ?_
    refine (silent_store32 _ _).reports.bind fun _ => ?_
    refine (silent_storeStr _ _).reports.bind fun _ => ?_
    exact reports_sendRequest (by decide) (by decide)
  have hinfo : Reports e lay (vboxAuxReportGuestInfo lay pciPort) := by
    refine (silent_store32 _ _).reports.bind fun _ => ?_
    refine (silent_store32 _ _).reports.bind fun _ => ?_
    exact reports_sendRequest (by decide) (by decide)
  have hend (ret : BitVec 16) : Reports e lay
      (if ret ≠ vinfSuccess then Program.ret fail else Program.ret ok) :=
    (Silent.ret _).reports.ite (Silent.ret _).reports
  exact hinfo2.bind fun ret =>
    Reports.ite (hinfo.bind hend) (Reports.bind (Silent.ret ret).reports hend)

theorem reports_backdoorInit (pciPort : BitVec 16) :
    Reports e lay (vboxAuxVBoxBackdoorInit lay pciPort) := by
  have hcheck : Silent e pciCheck :=
    (silent_int86 _).bind fun _ => (Silent.ret _).ite (Silent.ret _)
  have hfind : Silent e (pciFindDevice vmmdevPciVendor vmmdevPciDevice) :=
    (silent_int86 _).bind fun _ => Silent.ret _
  have hiobase (bus devFunc : BitVec 8) : Silent e (pciGetIobase bus devFunc pciPort) :=
    (silent_int86 _).bind fun _ => (Silent.ret _).ite (Silent.ret _)
  refine hcheck.reports.bind fun maxbus => (Silent.ret _).reports.ite ?_
  refine hfind.reports.bind fun found => (Silent.ret _).reports.ite ?_
  refine (hiobase _ _).reports.bind fun port => (Silent.ret _).reports.ite ?_
  exact (reports_reportGuest _).bind fun _ => (Silent.ret _).reports

variable (e lay) in
/-- `VBoxAuxInitVirtual` loads `s` and only then writes to the port. -/
theorem initVirtual_spec (pciPort : BitVec 16) :
    ∃ es, (after e (vboxAuxInitVirtual lay pciPort) m).trace = m.trace ++ es ∧
      (after e (vboxAuxInitVirtual lay pciPort) m).s = e.ds ∧
      (after e (vboxAuxInitVirtual lay pciPort) m).dos = m.dos ∧
      ∀ ev ∈ es, IsReport (mkLinear e.ds lay.request) ev := by
  have hreports : Reports e lay (do
      let (ret, pciPort) ← vboxAuxVBoxBackdoorInit lay pciPort
      if ret ≠ 0 then return (ret, pciPort)
      else
        let ret ← vboxAuxGetVersion lay pciPort
        return (ret, pciPort)) := by
    refine (reports_backdoorInit _).bind fun init => (Silent.ret _).reports.ite ?_
    refine Reports.bind ?_ fun ret => (Silent.ret _).reports
    refine (reports_sendRequest (by decide) (by decide)).bind fun ret => ?_
    exact (Silent.ret _).reports.ite (Silent.ret _).reports
  obtain ⟨es, hes, hes'⟩ := hreports (after e segread m)
  rw [vboxAuxInitVirtual, after_bind]
  exact ⟨es, hes.trace, hes.s, hes.dos, hes'⟩

end Emits

end VmmDev

end Vbsmount

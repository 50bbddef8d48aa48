/-
**The session of a run of `main`.**

A run has a session of the shared folders service in one of two ways: it opens one, or it takes the
one of a resident copy.  The label `error` ends it without asking which.  On the second way,
moreover, `VBoxAuxInitVirtual` is not called, so `s` is not loaded when the requests of the run are
sent.

Main definitions:

* `sessions`, `EndsOwnSessions` — the sessions a run has opened, and that it ends these and no
  others;
* `EndSite`, `EndsSession` — the places where a session is ended, and what has to be sent there.

Main results:

* `main_endsOwnSessions_iff` — **a run ends exactly the sessions it has opened, unless it finds the
  driver resident**;
* `main_wellAddressed_iff` — **its linear addresses are in the data segment, unless it finds the
  driver resident and the data segment is not 0**;
* `endSite_endsSession_iff` — **`UninstallDriver` passes the port and the client id in each other's
  place**.
-/

import Vbsmount.Main

set_option relaxedAutoImplicit false
set_option autoImplicit false

namespace Vbsmount

open Bytes VmmDev CString

/-! ### Sessions -/

/-- The session that a mark says was opened. -/
def VmmDev.Mark.session : Mark → Option (BitVec 16 × BitVec 32)
  | .sessionOpened pciPort clientId => some (pciPort, clientId)
  | _ => none

/-- The sessions opened by a run. -/
def sessions (es : List Event) : List (BitVec 16 × BitVec 32) := (marks es).filterMap Mark.session

/-- Every session that was opened has been sent one disconnect, and nothing else was disconnected
than client ids that were obtained so. -/
structure EndsOwnSessions (es : List Event) : Prop where
  once : ∀ x ∈ sessions es, (disconnects es).count x = 1
  own : ∀ x ∈ disconnects es, ∃ y ∈ sessions es, y.2 = x.2

section Sessions

variable {lay : Layout} {ds pciPort ret : BitVec 16} {clientId : BitVec 32} {front : List Mark}
  {rets : List (BitVec 16)} {es : List Event} {out : Outcome}

/-- The queries open no session. -/
theorem AsksForShares.sessions_eq
    (h : AsksForShares lay ds front pciPort clientId ret rets es out) :
    sessions es = front.filterMap Mark.session := by
  unfold sessions
  rw [h.recorded.marks, List.filterMap_append]
  simp [Mark.session]

theorem EndsEarly.endsOwnSessions (h : EndsEarly lay ds es out) : EndsOwnSessions es where
  once := by
    unfold sessions
    rw [h.recorded.marks]
    intro x hx
    cases hx
  own := by
    rw [h.recorded.disconnects]
    intro x hx
    cases hx

/-- A run with a session of its own ends it. -/
theorem AsksForShares.endsOwnSessions
    (h : AsksForShares lay ds [.sessionOpened pciPort clientId] pciPort clientId ret rets es out) :
    EndsOwnSessions es := by
  have hsessions : sessions es = [(pciPort, clientId)] := h.sessions_eq
  constructor
  · rw [hsessions, h.recorded.disconnects]
    intro x hx
    obtain rfl := List.mem_singleton.1 hx
    exact List.count_singleton_self
  · rw [hsessions, h.recorded.disconnects]
    intro x hx
    exact ⟨x, hx, rfl⟩

/-- A run with somebody else's session ends that one. -/
theorem AsksForShares.not_endsOwnSessions
    (h : AsksForShares lay ds [] pciPort clientId ret rets es out) : ¬ EndsOwnSessions es := by
  intro hends
  have hmem : (pciPort, clientId) ∈ disconnects es := by
    rw [h.recorded.disconnects]
    exact List.mem_singleton_self _
  obtain ⟨y, hy, -⟩ := hends.own _ hmem
  rw [h.sessions_eq] at hy
  cases hy

end Sessions

/-- **A run of `main` ends exactly the sessions it has opened, unless it finds the driver
resident.** -/
theorem main_endsOwnSessions_iff (e : Env) (lay : Layout) (inv : Invocation) (shared : Shared)
    (dos : Dos) :
    EndsOwnSessions (after e (main lay inv) (boot shared dos)).trace ↔ ¬ FindsResident inv dos := by
  rcases main_cases e lay inv shared dos with
    ⟨hfinds, p, c, ret, rets, -, hasks⟩ | ⟨hfinds, hearly | ⟨p, c, ret, rets, hasks⟩⟩
  · exact iff_of_false hasks.not_endsOwnSessions (not_not.2 hfinds)
  · exact iff_of_true hearly.endsOwnSessions hfinds
  · exact iff_of_true hasks.endsOwnSessions hfinds

/-- A command line without switches, on a machine that passes the checks. -/
def plainInvocation : Invocation where
  argString := ⟨[], List.not_mem_nil⟩
  runningIn386OrHigher := true
  osmajor := 5
  noSysVars := false
  installationCheck := 0
  pciPort := 0
  clientId := 0

/-- The run of that command line finds the resident copy that has mounted drive 4, and goes on with
its session. -/
theorem plainInvocation_asksForShares (e : Env) (shared : Shared) :
    ∃ ret rets, AsksForShares sampleLayout 0 [] 0xD020 1 ret rets
      (after e (main sampleLayout plainInvocation) (boot shared (dosWithMounts [4]))).trace
      (value e (main sampleLayout plainInvocation) (boot shared (dosWithMounts [4]))) := by
  rcases main_cases e sampleLayout plainInvocation shared (dosWithMounts [4]) with
    ⟨-, p, c, ret, rets, hinstalled, hasks⟩ | ⟨hfinds, -⟩
  · have hsession : some (0xD020, 1) = some (p, c) := hinstalled
    obtain ⟨rfl, rfl⟩ := Prod.mk.inj (Option.some.inj hsession)
    exact ⟨ret, rets, hasks⟩
  · refine absurd ⟨⟨?_, ?_, rfl, ?_, rfl⟩, ?_⟩ hfinds
    · decide
    · decide
    · decide
    · decide

/-- It disconnects the session of the resident copy, and has opened none. -/
theorem residentSession_ended :
    let es := (after silentEnv (main sampleLayout plainInvocation)
      (boot ⟨fun _ => 0, fun _ => 0⟩ (dosWithMounts [4]))).trace
    sessions es = [] ∧ disconnects es = [(0xD020, 1)] ∧ ¬ EndsOwnSessions es := by
  obtain ⟨ret, rets, hasks⟩ := plainInvocation_asksForShares silentEnv ⟨fun _ => 0, fun _ => 0⟩
  exact ⟨hasks.sessions_eq, hasks.recorded.disconnects, hasks.not_endsOwnSessions⟩

/-! ### Linear addresses -/

/-- All writes of a run are well addressed in segment `ds`. -/
def AllWellAddressed (lay : Layout) (ds : BitVec 16) (es : List Event) : Prop :=
  ∀ w, .out w ∈ es → WellAddressed lay ds w

/-- The linear address tells the segment, for one offset. -/
theorem mkLinear_left_injective {seg seg' off : BitVec 16} (h : mkLinear seg off = mkLinear seg' off) :
    seg = seg' := by
  unfold mkLinear at h
  bv_omega

/-- Something is sent where something is disconnected. -/
theorem exists_out_of_mem_disconnects {es : List Event} {x : BitVec 16 × BitVec 32}
    (h : x ∈ disconnects es) : ∃ w, .out w ∈ es := by
  obtain ⟨ev, hev, hx⟩ := List.mem_filterMap.1 h
  cases ev with
  | out w => exact ⟨w, hev⟩
  | mark m => cases hx

/-- The segment is known from the writes of a run that ends a session. -/
theorem AsksForShares.allWellAddressed_iff {lay : Layout} {ds ds' pciPort ret : BitVec 16}
    {clientId : BitVec 32} {front : List Mark} {rets : List (BitVec 16)} {es : List Event}
    {out : Outcome} (h : AsksForShares lay ds front pciPort clientId ret rets es out) :
    AllWellAddressed lay ds' es ↔ ds' = ds := by
  constructor
  · intro haddressed
    have hmem : (pciPort, clientId) ∈ disconnects es := by
      rw [h.recorded.disconnects]
      exact List.mem_singleton_self _
    obtain ⟨w, hw⟩ := exists_out_of_mem_disconnects hmem
    have hsame := (haddressed w hw).1.symm.trans (h.recorded.addressed w hw).1
    exact mkLinear_left_injective hsame
  · intro hds
    rw [hds]
    exact h.recorded.addressed

/-- **The linear addresses a run of `main` writes are in the data segment, unless it finds the driver
resident and the data segment is not 0.** -/
theorem main_wellAddressed_iff (e : Env) (lay : Layout) (inv : Invocation) (shared : Shared)
    (dos : Dos) :
    AllWellAddressed lay e.ds (after e (main lay inv) (boot shared dos)).trace ↔
      ¬ FindsResident inv dos ∨ e.ds = 0 := by
  rcases main_cases e lay inv shared dos with
    ⟨hfinds, p, c, ret, rets, -, hasks⟩ | ⟨hfinds, hearly | ⟨p, c, ret, rets, hasks⟩⟩
  · rw [hasks.allWellAddressed_iff]
    exact (or_iff_right (not_not.2 hfinds)).symm
  · exact iff_of_true hearly.recorded.addressed (Or.inl hfinds)
  · exact iff_of_true hasks.recorded.addressed (Or.inl hfinds)

/-- With the data segment at 2000h, the addresses are in segment 0. -/
theorem residentRun_misaddressed :
    let es := (after silentEnv (main sampleLayout plainInvocation)
      (boot ⟨fun _ => 0, fun _ => 0⟩ (dosWithMounts [4]))).trace
    AllWellAddressed sampleLayout 0 es ∧ ¬ AllWellAddressed sampleLayout silentEnv.ds es := by
  obtain ⟨ret, rets, hasks⟩ := plainInvocation_asksForShares silentEnv ⟨fun _ => 0, fun _ => 0⟩
  refine ⟨hasks.recorded.addressed, ?_⟩
  rw [hasks.allWellAddressed_iff]
  decide

/-! ### Where a session is ended -/

/-- The places where the program ends a session. -/
inductive EndSite
  | errorLabel (ret : BitVec 16)
  | uninstallDriver

namespace EndSite

/-- The machine behind a place, where `main` has its session on `pciPort` as `clientId`. -/
def after (e : Env) (lay : Layout) (pciPort : BitVec 16) (clientId : BitVec 32) :
    EndSite → Machine → Machine
  | errorLabel ret, m => VmmDev.after e (Vbsmount.errorLabel lay pciPort clientId ret) m
  | uninstallDriver, m => VmmDev.after e (Vbsmount.uninstallDriver lay) m

/-- The session that is to be ended is the one on `pciPort` as `clientId`.  `UninstallDriver` ends
the session of the record behind `fpCurrDir`, if the vector is ours. -/
def Identifies (m : Machine) (pciPort : BitVec 16) (clientId : BitVec 32) : EndSite → Prop
  | errorLabel _ => True
  | uninstallDriver => ∃ k, m.dos.fpCurrDir = some k ∧
      (m.dos.sigAt k).ourHandler = m.dos.prevInt2fHandler ∧
      (m.dos.sigAt k).pciPort = pciPort ∧ (m.dos.sigAt k).clientId = clientId

end EndSite

/-- One disconnect of `clientId` is sent on `pciPort`, and no other port is written. -/
structure EndsSession (pciPort : BitVec 16) (clientId : BitVec 32) (es : List Event) : Prop where
  sent : disconnects es = [(pciPort, clientId)]
  port : ∀ w, .out w ∈ es → w.port = pciPort

/-- What `VBoxAuxEndSession` records ends the session it is given, and no other. -/
theorem endSession_endsSession_iff (e : Env) (lay : Layout) (m : Machine) (p p' : BitVec 16)
    (c c' : BitVec 32) :
    EndsSession p' c' ((after e (vboxAuxEndSession lay p c) m).trace.drop m.trace.length) ↔
      p = p' ∧ c = c' := by
  obtain ⟨es, hes, hrec, hport⟩ := endSession_spec e lay m p c
  rw [hes.trace, List.drop_left]
  constructor
  · intro h
    have hsame := hrec.disconnects.symm.trans h.sent
    exact Prod.mk.inj (List.singleton_inj.1 hsame)
  · rintro ⟨rfl, rfl⟩
    exact ⟨hrec.disconnects, hport⟩

/-- A client id and a port, converted into each other's types. -/
theorem swapped_eq_iff {p : BitVec 16} {c : BitVec 32} :
    c.setWidth 16 = p ∧ p.setWidth 32 = c ↔ c = p.setWidth 32 := by
  constructor
  · intro h
    exact h.2.symm
  · rintro rfl
    exact ⟨BitVec.setWidth_setWidth_of_le p (by decide), rfl⟩

/-- **The session is ended everywhere but in `UninstallDriver`, and there only if the client id is
the port**: the port and the client id are passed in each other's place. -/
theorem endSite_endsSession_iff (e : Env) (lay : Layout) (m : Machine) (site : EndSite)
    {pciPort : BitVec 16} {clientId : BitVec 32} (h : site.Identifies m pciPort clientId) :
    EndsSession pciPort clientId
        ((site.after e lay pciPort clientId m).trace.drop m.trace.length) ↔
      site ≠ .uninstallDriver ∨ clientId = pciPort.setWidth 32 := by
  cases site with
  | errorLabel ret =>
      rw [EndSite.after, after_errorLabel, endSession_endsSession_iff]
      exact iff_of_true ⟨rfl, rfl⟩ (Or.inl EndSite.noConfusion)
  | uninstallDriver =>
      obtain ⟨k, hk, hours, rfl, rfl⟩ := h
      rw [EndSite.after, after_uninstallDriver_of_eq e lay hk hours]
      have hends := endSession_endsSession_iff e lay
        { m with dos := m.dos.release k (m.dos.sigAt k).previousHandler }
        ((m.dos.sigAt k).clientId.setWidth 16) (m.dos.sigAt k).pciPort
        ((m.dos.sigAt k).pciPort.setWidth 32) (m.dos.sigAt k).clientId
      rw [swapped_eq_iff] at hends
      rw [hends]
      exact (or_iff_right fun h => h rfl).symm

theorem oneMount_endsSession :
    EndsSession 0xD020 1 ((EndSite.uninstallDriver.after silentEnv sampleLayout 0xD020 1
        (machineWithMounts [4])).trace.drop 0) ↔
      EndSite.uninstallDriver ≠ .uninstallDriver ∨ (1 : BitVec 32) = (0xD020 : BitVec 16).setWidth 32 :=
  endSite_endsSession_iff silentEnv sampleLayout (machineWithMounts [4]) .uninstallDriver
    ⟨4, rfl, by decide, by decide, by decide⟩

/-- For the session on port D020h as client 1, what is sent is a disconnect of client D020h on
port 1. -/
theorem uninstallDriver_swaps :
    disconnects (EndSite.uninstallDriver.after silentEnv sampleLayout 0xD020 1
        (machineWithMounts [4])).trace = [(1, 0xD020)] ∧
      ¬ EndsSession 0xD020 1 (EndSite.uninstallDriver.after silentEnv sampleLayout 0xD020 1
        (machineWithMounts [4])).trace := by
  have hswapped : disconnects (EndSite.uninstallDriver.after silentEnv sampleLayout 0xD020 1
      (machineWithMounts [4])).trace = [(1, 0xD020)] := by
    rw [EndSite.after, after_uninstallDriver_of_eq silentEnv sampleLayout
      (m := machineWithMounts [4]) (k := 4) rfl (by decide)]
    obtain ⟨es, hes, hrec, -⟩ := endSession_spec silentEnv sampleLayout
      { machineWithMounts [4] with dos := (machineWithMounts [4]).dos.release 4 0x00700000 } 1 0xD020
    have htrace := hes.trace
    rw [show (machineWithMounts [4]).trace = [] from rfl, List.nil_append] at htrace
    exact (congrArg disconnects htrace).trans hrec.disconnects
  refine ⟨hswapped, fun hends => ?_⟩
  rw [hends.sent] at hswapped
  exact absurd hswapped (by decide)

end Vbsmount

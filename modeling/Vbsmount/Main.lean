/-
**The transient program (`main`).**

`main` reads the command line, checks the machine it runs on, looks for a resident copy of the
driver, opens a session of the shared folders service if there is none, asks for the shares and
their names, and ends the session.

Main definitions:

* `Invocation`, `Outcome` — what a run depends on besides memory and the host, and how it ends;
* `main` with its parts `mappingLoop`, `errorLabel`, `listShares` — the source's function;
* `FindsResident` — the run gets as far as `AlreadyInstalled`, and that returns 1;
* `marks`, `disconnects`, `WellAddressed`, `Recorded` — what was recorded of a run: its marks, the
  disconnects it has sent, and that the linear addresses in it are in a given segment;
* `EndsEarly`, `AsksForShares` — the two kinds of runs.

Main results:

* `listShares_spec` — the part of `main` from the query for the mappings on;
* `main_cases` — **the three ways a run of `main` takes**;
* `main_of_not_searches`, `main_of_searches`, `openSession_eq` — the same for the program itself.

The messages, what is stored in the buffer for the share names, and the pointers to resident data
that `main` sets up and does not use are left out; `Vbsmount.Console` adds the messages.
-/

import Vbsmount.Installed
import Vbsmount.Options

set_option relaxedAutoImplicit false
set_option autoImplicit false

namespace Vbsmount

open Bytes VmmDev CString

/-! ### The program -/

def errSuccess : BitVec 16 := 0
def errNotInst : BitVec 16 := 246
def errBadOpts : BitVec 16 := 248
def errWrongOs : BitVec 16 := 249
def errNoVirt : BitVec 16 := 250
def errNoShf : BitVec 16 := 251
def errNoAllwd : BitVec 16 := 252
def errSystem : BitVec 16 := 255

/-- What a run depends on: the command tail, the answers of the processor and of DOS, and what the
uninitialised locals hold. -/
structure Invocation where
  argString : Str chNul
  runningIn386OrHigher : Bool
  osmajor : BitVec 8
  /-- `GetSysVars` has failed. -/
  noSysVars : Bool
  installationCheck : BitVec 8
  pciPort : BitVec 16
  clientId : BitVec 32

/-- How a run ends. -/
inductive Outcome
  | exited (err : BitVec 16)
  | returned (ret : BitVec 16)
  deriving DecidableEq

section Program

variable (lay : Layout)

/-- The loop over the mappings. -/
def mappingLoop (pciPort : BitVec 16) (clientId : BitVec 32) :
    ℕ → ℕ → BitVec 16 → Code (BitVec 16)
  | 0, _, ret => return ret
  | left + 1, mapping, _ => do
      let root ← mappingRoot mapping
      -- sizeof( SHFLSTRING ) + SHFL_MAX_LEN
      let ret ← vboxAuxShflGetMapName lay pciPort clientId root 262
      mark (.gotMapName ret)
      mappingLoop pciPort clientId left (mapping + 1) ret

/-- The label `error`. -/
def errorLabel (pciPort : BitVec 16) (clientId : BitVec 32) (ret : BitVec 16) : Code Outcome := do
  vboxAuxEndSession lay pciPort clientId
  return .returned ret

/-- `main` from the list of available shares on. -/
def listShares (pciPort : BitVec 16) (clientId : BitVec 32) : Code Outcome := do
  let (ret, numMappings) ← vboxAuxShflGetMappings lay pciPort clientId shflMaxMappings
  mark (.gotMappings ret)
  if ret ≠ vinfSuccess then
    errorLabel lay pciPort clientId errNoShf
  else
    let ret ← mappingLoop lay pciPort clientId numMappings.toNat 0 ret
    errorLabel lay pciPort clientId ret

/-- `main`, where the driver is not installed. -/
def openSession (inv : Invocation) (uninstall : BitVec 16) : Code Outcome := do
  if uninstall ≠ 0 then return .returned errNotInst
  else if inv.installationCheck = 0x01 then return .returned errNoAllwd
  else
    let (ret, pciPort) ← vboxAuxInitVirtual lay inv.pciPort
    if fail = ret then return .returned errNoVirt
    else
      let (ret, clientId) ← vboxAuxBeginSession lay pciPort inv.clientId
      if fail = ret then return .returned errNoShf
      else
        mark (.sessionOpened pciPort clientId)
        listShares lay pciPort clientId

/-- `main`. -/
def main (inv : Invocation) : Code Outcome := do
  let (ret, options) := getOptions inv.argString Options.start
  if ret = 1 then return .exited errSuccess
  else if ret = 2 then return .exited errBadOpts
  else if ¬ inv.runningIn386OrHigher then return .returned errNoVirt
  else if inv.osmajor < 5 then return .returned errWrongOs
  else if inv.noSysVars then return .returned errSystem
  else
    let d ← getDos
    let (installed, d) := alreadyInstalled { d with prevInt2fHandler := d.vect2f }
    setDos d
    match installed with
    | some (pciPort, clientId) => listShares lay pciPort clientId
    | none => openSession lay inv options.uninstall

end Program

/-- The machine as the program is loaded: `s` is a static without initialiser. -/
def boot (shared : Shared) (dos : Dos) : Machine := ⟨shared, 0, dos, 0, []⟩

/-- The run gets as far as the search for the driver. -/
def Invocation.Searches (inv : Invocation) : Prop :=
  (getOptions inv.argString Options.start).1 ≠ 1 ∧ (getOptions inv.argString Options.start).1 ≠ 2 ∧
    inv.runningIn386OrHigher = true ∧ ¬ inv.osmajor < 5 ∧ inv.noSysVars = false

/-- The run finds the driver resident. -/
def FindsResident (inv : Invocation) (dos : Dos) : Prop :=
  inv.Searches ∧ (alreadyInstalled { dos with prevInt2fHandler := dos.vect2f }).1.isSome

/-! ### What was recorded -/

/-- The marks. -/
def marks (es : List Event) : List Mark :=
  es.filterMap fun
    | .out _ => none
    | .mark m => some m

/-- The disconnects: the port and the client id of each. -/
def disconnects (es : List Event) : List (BitVec 16 × BitVec 32) :=
  es.filterMap fun
    | .out w => if w.type = reqHgcmDisconnect.signExtend 32 then some (w.port, w.clientId) else none
    | .mark _ => none

/-- The linear addresses of a write are in segment `ds`: that of the request block, and those of the
buffers in the queries. -/
def WellAddressed (lay : Layout) (ds : BitVec 16) (w : PortWrite) : Prop :=
  w.value = mkLinear ds lay.request ∧
    (w.type = reqHgcmCall.signExtend 32 →
      (w.block.get32 offFunction = shflFnQueryMappings →
        w.block.get32 offMappingsAddr = mkLinear ds lay.mappings) ∧
      (w.block.get32 offFunction = shflFnQueryMapName →
        w.block.get32 offNameAddr = mkLinear ds lay.shfNameBuf))

/-- What is recorded in `es`: the marks `ms` and the disconnects `cs`, and all writes well addressed
in segment `ds`. -/
structure Recorded (lay : Layout) (ds : BitVec 16) (es : List Event) (ms : List Mark)
    (cs : List (BitVec 16 × BitVec 32)) : Prop where
  marks : marks es = ms
  disconnects : disconnects es = cs
  addressed : ∀ w, .out w ∈ es → WellAddressed lay ds w

section Recorded

variable {lay : Layout} {ds : BitVec 16} {es fs : List Event} {ms ms' : List Mark}
  {cs cs' : List (BitVec 16 × BitVec 32)}

theorem Recorded.nil : Recorded lay ds [] [] [] :=
  ⟨rfl, rfl, fun _ hw => absurd hw List.not_mem_nil⟩

theorem Recorded.append (hes : Recorded lay ds es ms cs) (hfs : Recorded lay ds fs ms' cs') :
    Recorded lay ds (es ++ fs) (ms ++ ms') (cs ++ cs') where
  marks := by rw [← hes.marks, ← hfs.marks]; exact List.filterMap_append ..
  disconnects := by rw [← hes.disconnects, ← hfs.disconnects]; exact List.filterMap_append ..
  addressed := by
    intro w hw
    rcases List.mem_append.1 hw with hw | hw
    · exact hes.addressed w hw
    · exact hfs.addressed w hw

theorem Recorded.mark (m : Mark) : Recorded lay ds [.mark m] [m] [] :=
  ⟨rfl, rfl, fun _ hw => by cases List.mem_singleton.1 hw⟩

theorem Recorded.out {w : PortWrite} (hw : WellAddressed lay ds w) :
    Recorded lay ds [.out w] []
      (if w.type = reqHgcmDisconnect.signExtend 32 then [(w.port, w.clientId)] else []) where
  marks := rfl
  disconnects := by
    split_ifs with h
    · simp [Vbsmount.disconnects, h]
    · simp [Vbsmount.disconnects, h]
  addressed := by
    intro w' hw'
    obtain rfl := Event.out.inj (List.mem_singleton.1 hw')
    exact hw

/-- What is recorded of a request to a service, whose query is well addressed if it is one. -/
theorem VmmDev.IsServiceCall.recorded {pciPort type : BitVec 16} {P : Mem → Prop}
    (h : IsServiceCall pciPort (mkLinear ds lay.request) type P es)
    (hP : ∀ b, P b → b.get32 offRequestType = type.signExtend 32 →
      WellAddressed lay ds ⟨pciPort, mkLinear ds lay.request, b⟩) :
    ∃ b, P b ∧ Recorded lay ds es []
      (if type.signExtend 32 = reqHgcmDisconnect.signExtend 32 then [(pciPort, b.get32 offClientId)]
      else []) := by
  obtain ⟨b, htype, hPb, hes⟩ := h
  have hrequest := Recorded.out (hP b hPb htype)
  rw [PortWrite.type, htype] at hrequest
  refine ⟨b, hPb, ?_⟩
  rcases hes with rfl | ⟨b', htype', rfl⟩
  · exact hrequest
  · have hcancel : Recorded lay ds [.out ⟨pciPort, mkLinear ds lay.request, b'⟩] [] [] := by
      have hwell : WellAddressed lay ds ⟨pciPort, mkLinear ds lay.request, b'⟩ :=
        ⟨rfl, fun h => absurd (htype'.symm.trans h) (by decide)⟩
      have h := Recorded.out hwell
      rw [PortWrite.type, htype', if_neg (by decide)] at h
      exact h
    have hboth := hrequest.append hcancel
    rw [List.append_nil, List.append_nil] at hboth
    exact hboth

/-- Reports leave no mark, disconnect nothing, and are well addressed. -/
theorem recorded_of_reports (h : ∀ ev ∈ es, IsReport (mkLinear ds lay.request) ev) :
    Recorded lay ds es [] [] where
  marks := List.filterMap_eq_nil_iff.2 fun ev hev => by
    obtain ⟨w, rfl, -⟩ := h ev hev
    rfl
  disconnects := List.filterMap_eq_nil_iff.2 fun ev hev => by
    obtain ⟨w, rfl, -, -, hne⟩ := h ev hev
    exact if_neg hne
  addressed := by
    intro w hw
    obtain ⟨w', hw', hvalue, hcall, -⟩ := h _ hw
    obtain rfl : w = w' := Event.out.inj hw'
    exact ⟨hvalue, fun h => absurd h hcall⟩

end Recorded

/-! ### Runs of the parts -/

section Runs

variable (e : Env) (lay : Layout) (m : Machine)

theorem shflGetMapName_spec (pciPort : BitVec 16) (clientId root ptrSize : BitVec 32) :
    ∃ es, Emits m es (after e (vboxAuxShflGetMapName lay pciPort clientId root ptrSize) m) ∧
      Recorded lay m.s es [] [] := by
  obtain ⟨es, hes, hcall⟩ := emits_shflGetMapName e lay m pciPort clientId root ptrSize
  obtain ⟨b, -, hrec⟩ := hcall.recorded fun b hb _ => ⟨rfl, fun _ =>
    ⟨fun h => absurd (hb.function.symm.trans h) (by decide), fun _ => hb.addr⟩⟩
  exact ⟨es, hes, hrec⟩

theorem shflGetMappings_spec (pciPort : BitVec 16) (clientId numMappings : BitVec 32) :
    ∃ es, Emits m es (after e (vboxAuxShflGetMappings lay pciPort clientId numMappings) m) ∧
      Recorded lay m.s es [] [] := by
  obtain ⟨es, hes, hcall⟩ := emits_shflGetMappings e lay m pciPort clientId numMappings
  obtain ⟨b, -, hrec⟩ := hcall.recorded fun b hb _ => ⟨rfl, fun _ =>
    ⟨fun _ => hb.addr, fun h => absurd (hb.function.symm.trans h) (by decide)⟩⟩
  exact ⟨es, hes, hrec⟩

theorem beginSession_spec (pciPort : BitVec 16) (clientId : BitVec 32) :
    ∃ es, Emits m es (after e (vboxAuxBeginSession lay pciPort clientId) m) ∧
      Recorded lay m.s es [] [] := by
  obtain ⟨es, hes, hcall⟩ := emits_beginSession e lay m pciPort clientId
  obtain ⟨b, -, hrec⟩ := hcall.recorded fun b _ htype =>
    ⟨rfl, fun h => absurd (htype.symm.trans h) (by decide)⟩
  exact ⟨es, hes, hrec⟩

theorem endSession_spec (pciPort : BitVec 16) (clientId : BitVec 32) :
    ∃ es, Emits m es (after e (vboxAuxEndSession lay pciPort clientId) m) ∧
      Recorded lay m.s es [] [(pciPort, clientId)] ∧ ∀ w, .out w ∈ es → w.port = pciPort := by
  obtain ⟨es, hes, hcall⟩ := emits_endSession e lay m pciPort clientId
  obtain ⟨b, hclient, hrec⟩ := hcall.recorded fun b _ htype =>
    ⟨rfl, fun h => absurd (htype.symm.trans h) (by decide)⟩
  rw [if_pos rfl, hclient] at hrec
  exact ⟨es, hes, hrec, fun _ hw => hcall.port_eq hw⟩

theorem emits_mark (k : Mark) : Emits m [.mark k] (after e (mark k) m) := ⟨rfl, rfl, rfl⟩

/-- **The step and the run of the loop over the mappings**: one name query after the other, and the
value is the result of the last one. -/
theorem mappingLoop_spec (pciPort : BitVec 16) (clientId : BitVec 32) (left mapping : ℕ)
    (ret : BitVec 16) :
    ∃ (es : List Event) (rets : List (BitVec 16)),
      Emits m es (after e (mappingLoop lay pciPort clientId left mapping ret) m) ∧
      Recorded lay m.s es (rets.map .gotMapName) [] ∧ rets.length = left ∧
      value e (mappingLoop lay pciPort clientId left mapping ret) m = rets.getLast?.getD ret := by
  induction left generalizing mapping ret m with
  | zero => exact ⟨[], [], Emits.refl m, Recorded.nil, rfl, rfl⟩
  | succ left ih =>
      have hroot : Emits m [] (after e (mappingRoot mapping) m) := silent_mappingRoot mapping m
      rw [mappingLoop, after_bind, value_bind, after_bind, value_bind, after_bind, value_bind]
      generalize value e (mappingRoot mapping) m = root
      generalize after e (mappingRoot mapping) m = m₁ at hroot
      obtain ⟨es, hes, hrec⟩ := shflGetMapName_spec e lay m₁ pciPort clientId root 262
      generalize value e (vboxAuxShflGetMapName lay pciPort clientId root 262) m₁ = ret₁
      generalize after e (vboxAuxShflGetMapName lay pciPort clientId root 262) m₁ = m₂ at hes
      have hmark := emits_mark e m₂ (.gotMapName ret₁)
      obtain ⟨fs, rets, hfs, hrec', hlen, hvalue⟩ :=
        ih (after e (mark (.gotMapName ret₁)) m₂) (mapping + 1) ret₁
      rw [hmark.s, hes.s, hroot.s] at hrec'
      rw [hroot.s] at hrec
      refine ⟨es ++ ([.mark (.gotMapName ret₁)] ++ fs), ret₁ :: rets, ?_, ?_, ?_, ?_⟩
      · exact hroot.trans (hes.trans (hmark.trans hfs))
      · exact hrec.append ((Recorded.mark _).append hrec')
      · rw [List.length_cons, hlen]
      · rw [hvalue, List.getLast?_cons, Option.getD_some]

theorem after_errorLabel (pciPort : BitVec 16) (clientId : BitVec 32) (ret : BitVec 16) :
    after e (errorLabel lay pciPort clientId ret) m =
      after e (vboxAuxEndSession lay pciPort clientId) m := by
  rw [errorLabel, after_bind]
  rfl

theorem value_errorLabel (pciPort : BitVec 16) (clientId : BitVec 32) (ret : BitVec 16) :
    value e (errorLabel lay pciPort clientId ret) m = .returned ret := by
  rw [errorLabel, value_bind]
  rfl

/-- What is recorded of the part of `main` behind the session: the result of the query for the
mappings, the results of the name queries, and one disconnect of the session. -/
theorem listShares_spec (pciPort : BitVec 16) (clientId : BitVec 32) :
    ∃ (es : List Event) (ret : BitVec 16) (rets : List (BitVec 16)),
      Emits m es (after e (listShares lay pciPort clientId) m) ∧
      Recorded lay m.s es (.gotMappings ret :: rets.map .gotMapName) [(pciPort, clientId)] ∧
      (ret ≠ vinfSuccess → rets = []) ∧ rets.length < 2 ^ 32 ∧
      value e (listShares lay pciPort clientId) m =
        .returned (if ret = vinfSuccess then rets.getLast?.getD ret else errNoShf) := by
  obtain ⟨es, hes, hrec⟩ := shflGetMappings_spec e lay m pciPort clientId shflMaxMappings
  rw [listShares, after_bind, value_bind, after_bind, value_bind]
  generalize value e (vboxAuxShflGetMappings lay pciPort clientId shflMaxMappings) m = out
  generalize after e (vboxAuxShflGetMappings lay pciPort clientId shflMaxMappings) m = m₁ at hes
  obtain ⟨ret, numMappings⟩ := out
  have hmark := emits_mark e m₁ (.gotMappings ret)
  have hs : (after e (mark (.gotMappings ret)) m₁).s = m.s := hmark.s.trans hes.s
  dsimp only
  generalize after e (mark (.gotMappings ret)) m₁ = m₂ at hmark hs
  by_cases hret : ret = vinfSuccess
  · rw [if_neg (not_not.2 hret), after_bind, value_bind, after_errorLabel]
    obtain ⟨fs, rets, hfs, hrec', hlength, hvalue⟩ :=
      mappingLoop_spec e lay m₂ pciPort clientId numMappings.toNat 0 ret
    rw [hvalue]
    obtain ⟨gs, hgs, hrec'', -⟩ := endSession_spec e lay
      (after e (mappingLoop lay pciPort clientId numMappings.toNat 0 ret) m₂) pciPort clientId
    rw [hfs.s, hs] at hrec''
    rw [hs] at hrec'
    refine ⟨es ++ ([.mark (.gotMappings ret)] ++ (fs ++ gs)), ret, rets, ?_, ?_, ?_, ?_, ?_⟩
    · exact hes.trans (hmark.trans (hfs.trans hgs))
    · have h := hrec.append ((Recorded.mark (.gotMappings ret)).append (hrec'.append hrec''))
      rw [List.append_nil] at h
      exact h
    · intro h
      exact absurd hret h
    · rw [hlength]
      exact numMappings.isLt
    · rw [value_errorLabel, if_pos hret]
  · rw [if_pos hret, value_errorLabel, after_errorLabel]
    obtain ⟨gs, hgs, hrec', -⟩ := endSession_spec e lay m₂ pciPort clientId
    rw [hs] at hrec'
    refine ⟨es ++ ([.mark (.gotMappings ret)] ++ gs), ret, [], ?_, ?_, fun _ => rfl, by decide, ?_⟩
    · exact hes.trans (hmark.trans hgs)
    · exact hrec.append ((Recorded.mark (.gotMappings ret)).append hrec')
    · rw [if_neg hret]

/-! ### The ways through `main` -/

/-- A run that asks for no shares: nothing is marked and nothing disconnected, and a value that is
returned is an error. -/
structure EndsEarly (ds : BitVec 16) (es : List Event) (out : Outcome) : Prop where
  recorded : Recorded lay ds es [] []
  error : ∀ ret, out = .returned ret → ret.setWidth 8 ≠ (0 : BitVec 8)

/-- A run that asks for the shares of session `clientId` on `pciPort`, behind the marks `front`:
`ret` is the result of the query for the mappings, `rets` are those of the name queries. -/
structure AsksForShares (ds : BitVec 16) (front : List Mark) (pciPort : BitVec 16)
    (clientId : BitVec 32) (ret : BitVec 16) (rets : List (BitVec 16)) (es : List Event)
    (out : Outcome) : Prop where
  recorded : Recorded lay ds es (front ++ .gotMappings ret :: rets.map .gotMapName)
    [(pciPort, clientId)]
  names : ret ≠ vinfSuccess → rets = []
  count : rets.length < 2 ^ 32
  value : out = .returned (if ret = vinfSuccess then rets.getLast?.getD ret else errNoShf)

theorem endsEarly_of_error {ds err : BitVec 16} {es : List Event} (h : Recorded lay ds es [] [])
    (herr : err.setWidth 8 ≠ (0 : BitVec 8)) : EndsEarly lay ds es (.returned err) where
  recorded := h
  error := by
    intro ret hret
    cases hret
    exact herr

theorem openSession_spec (inv : Invocation) (uninstall : BitVec 16) :
    ∃ es, (after e (openSession lay inv uninstall) m).trace = m.trace ++ es ∧
      (EndsEarly lay e.ds es (value e (openSession lay inv uninstall) m) ∨
        ∃ pciPort clientId ret rets,
          AsksForShares lay e.ds [.sessionOpened pciPort clientId] pciPort clientId ret rets es
            (value e (openSession lay inv uninstall) m)) := by
  unfold openSession
  split_ifs with huninstall hcheck
  · exact ⟨[], (List.append_nil _).symm, Or.inl (endsEarly_of_error lay Recorded.nil (by decide))⟩
  · exact ⟨[], (List.append_nil _).symm, Or.inl (endsEarly_of_error lay Recorded.nil (by decide))⟩
  obtain ⟨es, htrace, hs, -, hreports⟩ := initVirtual_spec e lay m inv.pciPort
  have hrec := recorded_of_reports hreports
  rw [after_bind, value_bind]
  generalize value e (vboxAuxInitVirtual lay inv.pciPort) m = out
  generalize after e (vboxAuxInitVirtual lay inv.pciPort) m = m₁ at htrace hs
  obtain ⟨ret, pciPort⟩ := out
  dsimp only
  split_ifs with hinit
  · exact ⟨es, htrace, Or.inl (endsEarly_of_error lay hrec (by decide))⟩
  obtain ⟨fs, hfs, hrec'⟩ := beginSession_spec e lay m₁ pciPort inv.clientId
  rw [after_bind, value_bind]
  generalize value e (vboxAuxBeginSession lay pciPort inv.clientId) m₁ = out
  generalize after e (vboxAuxBeginSession lay pciPort inv.clientId) m₁ = m₂ at hfs
  obtain ⟨ret, clientId⟩ := out
  rw [hs] at hrec'
  have hfront := hrec.append hrec'
  have hfront' : m₂.trace = m.trace ++ (es ++ fs) := by
    rw [hfs.trace, htrace, List.append_assoc]
  dsimp only
  split_ifs with hbegin
  · exact ⟨es ++ fs, hfront', Or.inl (endsEarly_of_error lay hfront (by decide))⟩
  rw [after_bind, value_bind]
  have hmark := emits_mark e m₂ (.sessionOpened pciPort clientId)
  generalize after e (mark (.sessionOpened pciPort clientId)) m₂ = m₃ at hmark
  obtain ⟨gs, ret, rets, hgs, hrec'', hnames, hcount, hvalue⟩ :=
    listShares_spec e lay m₃ pciPort clientId
  rw [hmark.s, hfs.s, hs] at hrec''
  refine ⟨es ++ fs ++ ([.mark (.sessionOpened pciPort clientId)] ++ gs), ?_,
    Or.inr ⟨pciPort, clientId, ret, rets, ?_, hnames, hcount, hvalue⟩⟩
  · rw [(hmark.trans hgs).trace, hfront', List.append_assoc]
  · exact hfront.append ((Recorded.mark _).append hrec'')

end Runs

/-- **The three ways a run of `main` takes**: it finds the driver resident and asks for the shares of
that session, with `s` as it was loaded; it ends early; or it opens a session of its own and asks
for its shares, with `s` holding the data segment. -/
theorem main_cases (e : Env) (lay : Layout) (inv : Invocation) (shared : Shared) (dos : Dos) :
    (FindsResident inv dos ∧ ∃ pciPort clientId ret rets,
        (alreadyInstalled { dos with prevInt2fHandler := dos.vect2f }).1 =
          some (pciPort, clientId) ∧
        AsksForShares lay 0 [] pciPort clientId ret rets
          (after e (main lay inv) (boot shared dos)).trace
          (value e (main lay inv) (boot shared dos))) ∨
      (¬ FindsResident inv dos ∧
        (EndsEarly lay e.ds (after e (main lay inv) (boot shared dos)).trace
            (value e (main lay inv) (boot shared dos)) ∨
          ∃ pciPort clientId ret rets,
            AsksForShares lay e.ds [.sessionOpened pciPort clientId] pciPort clientId ret rets
              (after e (main lay inv) (boot shared dos)).trace
              (value e (main lay inv) (boot shared dos)))) := by
  unfold FindsResident Invocation.Searches main
  generalize getOptions inv.argString Options.start = out
  obtain ⟨ret, options⟩ := out
  dsimp only
  split_ifs with h₁ h₂ h₃ h₄ h₅
  · refine Or.inr ⟨fun h => h.1.1 h₁, Or.inl ⟨Recorded.nil, ?_⟩⟩
    intro ret hret
    cases hret
  · refine Or.inr ⟨fun h => h.1.2.1 h₂, Or.inl ⟨Recorded.nil, ?_⟩⟩
    intro ret hret
    cases hret
  · exact Or.inr ⟨fun h => h.1.2.2.2.1 h₄,
      Or.inl (endsEarly_of_error lay Recorded.nil (by decide))⟩
  · refine Or.inr ⟨fun h => ?_, Or.inl (endsEarly_of_error lay Recorded.nil (by decide))⟩
    rw [h.1.2.2.2.2] at h₅
    cases h₅
  · have hsearches : ret ≠ 1 ∧ ret ≠ 2 ∧ inv.runningIn386OrHigher = true ∧ ¬ inv.osmajor < 5 ∧
        inv.noSysVars = false := ⟨h₁, h₂, h₃, h₄, by simpa using h₅⟩
    rw [after_bind, value_bind]
    have hdos : value e getDos (boot shared dos) = dos := rfl
    have hboot : after e getDos (boot shared dos) = boot shared dos := rfl
    rw [hdos, hboot]
    generalize alreadyInstalled { dos with prevInt2fHandler := dos.vect2f } = out
    obtain ⟨installed, d⟩ := out
    rw [after_bind, value_bind]
    have hset : after e (setDos d) (boot shared dos) = boot shared d := rfl
    rw [hset]
    cases installed with
    | some session =>
        obtain ⟨pciPort, clientId⟩ := session
        obtain ⟨es, ret, rets, hes, hrec, hnames, hcount, hvalue⟩ :=
          listShares_spec e lay (boot shared d) pciPort clientId
        refine Or.inl
          ⟨⟨hsearches, rfl⟩, pciPort, clientId, ret, rets, rfl, ?_, hnames, hcount, hvalue⟩
        rw [hes.trace]
        exact hrec
    | none =>
        obtain ⟨es, htrace, hes⟩ := openSession_spec e lay (boot shared d) inv options.uninstall
        refine Or.inr ⟨fun h => absurd h.2 Bool.false_ne_true, ?_⟩
        rw [htrace]
        exact hes
  · exact Or.inr ⟨fun h => h₃ h.1.2.2.1,
      Or.inl (endsEarly_of_error lay Recorded.nil (by decide))⟩

/-! ### The run of `main`, up to the search for the driver -/

/-- The session of the resident copy, if the search finds one, and what it leaves of DOS. -/
def search (dos : Dos) : Option (BitVec 16 × BitVec 32) × Dos :=
  alreadyInstalled { dos with prevInt2fHandler := dos.vect2f }

/-- A run that does not get as far as the search does nothing. -/
theorem main_of_not_searches (lay : Layout) {inv : Invocation} (h : ¬ inv.Searches) :
    ∃ out, main lay inv = Program.ret out := by
  unfold Invocation.Searches at h
  unfold main
  generalize getOptions inv.argString Options.start = out at h
  obtain ⟨ret, options⟩ := out
  dsimp only at h ⊢
  split_ifs with h₁ h₂ h₃ h₄ h₅
  · exact ⟨_, rfl⟩
  · exact ⟨_, rfl⟩
  · exact ⟨_, rfl⟩
  · exact ⟨_, rfl⟩
  · exact absurd ⟨h₁, h₂, h₃, h₄, by simpa using h₅⟩ h
  · exact ⟨_, rfl⟩

/-- **A run that gets as far as the search** goes on with the session that this has found, or opens
one. -/
theorem main_of_searches {lay : Layout} {inv : Invocation} (h : inv.Searches) :
    main lay inv = (getDos >>= fun dos => setDos (search dos).2 >>= fun _ =>
      match (search dos).1 with
      | some (pciPort, clientId) => listShares lay pciPort clientId
      | none => openSession lay inv (getOptions inv.argString Options.start).2.uninstall) := by
  obtain ⟨h₁, h₂, h₃, h₄, h₅⟩ := h
  rw [main]
  simp only [if_neg h₁, if_neg h₂, if_neg (not_not.2 h₃), if_neg h₄, h₅]
  rfl

theorem run_main_of_searches (e : Env) (lay : Layout) {inv : Invocation} (h : inv.Searches)
    (shared : Shared) (dos : Dos) :
    Program.run (handle e) (main lay inv) (boot shared dos) =
      Program.run (handle e) (match (search dos).1 with
        | some (pciPort, clientId) => listShares lay pciPort clientId
        | none => openSession lay inv (getOptions inv.argString Options.start).2.uninstall)
        (boot shared (search dos).2) := by
  rw [main_of_searches h]
  rfl

/-- `main`, where the driver is not installed, once the device is known. -/
def newSession (lay : Layout) (pciPort : BitVec 16) (clientId : BitVec 32) : Code Outcome := do
  let (ret, clientId) ← vboxAuxBeginSession lay pciPort clientId
  if fail = ret then return .returned errNoShf
  else
    mark (.sessionOpened pciPort clientId)
    listShares lay pciPort clientId

/-- A run that is to mount, and is allowed to. -/
theorem openSession_eq (lay : Layout) {inv : Invocation} {uninstall : BitVec 16}
    (hmount : uninstall = 0) (hallowed : inv.installationCheck ≠ 1) :
    openSession lay inv uninstall = (vboxAuxInitVirtual lay inv.pciPort >>= fun (ret, pciPort) =>
      if fail = ret then return .returned errNoVirt else newSession lay pciPort inv.clientId) := by
  rw [openSession, if_neg (not_not.2 hmount), if_neg hallowed]
  rfl

end Vbsmount

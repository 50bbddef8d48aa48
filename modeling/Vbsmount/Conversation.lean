/-
**The conversation that a run of `main` has with the device.**

The requests of a run come in a fixed order, whatever the host makes of them: the reports, the
version, the session, the shares with their names, and the end of the session, where a request for a
service may be cancelled before the next one is sent.  A run that finds the driver resident joins in
where the session is open.

Main definitions:

* `Stage`, `Talk` — how far a conversation has got, and whether the last request may be cancelled;
* `Talk.next`, `Follows` — what may be said next, and what may be said in a row;
* `Converses` — code that keeps to a conversation, with a postcondition on how far it has got;
* `pciPortOf` — the port of the device, by the account of the PCI BIOS;
* `whereItJoins` — where a run joins the conversation.

Main results:

* `converses_listShares` — from the query for the shares to the end of the session;
* `openSession_conversation` — a run that opens a session of its own;
* `main_conversation` — **the requests of a run are a conversation**, on one port, and a session
  that has been asked for its shares is ended;
* `main_port` — **nothing is written to a port that has not been found before**.
-/

import Vbsmount.Requests
import Vbsmount.MainSession

set_option relaxedAutoImplicit false
set_option autoImplicit false

namespace Vbsmount

open Bytes VmmDev

/-! ### Conversations -/

/-- How far a conversation has got.  The client id of a session is known before the first query when
the session is not the conversation's own. -/
inductive Stage
  | loaded
  | described
  | reported
  | versioned
  | connected (known : Option (BitVec 32))
  | listed (clientId : BitVec 32)
  | closed
  deriving DecidableEq

/-- A conversation: how far it has got, and whether the last request may be cancelled. -/
structure Talk where
  stage : Stage
  pending : Bool

section Talk

variable (lay : Layout) (ds : BitVec 16)

/-- What a request other than a cancellation leads to.  The shares are asked for with the address of
`mappings`, and their names with that of `shfNameBuf`; the session of a conversation is that of the
query for the shares. -/
def Stage.next : Stage → Request → Option Stage
  | .loaded, .reportGuestInfo2 => some .described
  | .described, .reportGuestInfo => some .reported
  | .reported, .getHostVersion => some .versioned
  | .versioned, .connect => some (.connected none)
  | .connected known, .queryMappings clientId numMappings addr =>
      if known.getD clientId = clientId ∧ numMappings = shflMaxMappings ∧
          addr = mkLinear ds lay.mappings then
        some (.listed clientId)
      else none
  | .listed clientId, .queryMapName clientId' _ ptrSize addr =>
      if clientId' = clientId ∧ ptrSize = 262 ∧ addr = mkLinear ds lay.shfNameBuf then
        some (.listed clientId)
      else none
  | .listed clientId, .disconnect clientId' =>
      if clientId' = clientId then some .closed else none
  | _, _ => none

/-- What a request leads to. -/
def Talk.next (t : Talk) : Request → Option Talk
  | .cancel => if t.pending then some { t with pending := false } else none
  | r => (t.stage.next lay ds r).map fun stage => ⟨stage, r.toService⟩

/-- The requests may be sent in a row, and lead from the first conversation to the second one. -/
def Follows (t : Talk) (rs : List Request) (t' : Talk) : Prop :=
  rs.foldlM (Talk.next lay ds) t = some t'

variable {lay ds}

theorem Follows.nil (t : Talk) : Follows lay ds t [] t := rfl

theorem Follows.append {t₁ t₂ t₃ : Talk} {rs rs' : List Request} (h : Follows lay ds t₁ rs t₂)
    (h' : Follows lay ds t₂ rs' t₃) : Follows lay ds t₁ (rs ++ rs') t₃ := by
  rw [Follows, List.foldlM_append, h]
  exact h'

theorem Follows.single {t t' : Talk} {r : Request} (h : t.next lay ds r = some t') :
    Follows lay ds t [r] t' := by
  rw [Follows, List.foldlM_cons, h]
  rfl

/-- A request for a service, whether it is cancelled or not. -/
theorem follows_exchange {t : Talk} {r : Request} {stage : Stage} (hr : r.toService = true)
    (h : t.stage.next lay ds r = some stage) (cancelled : Bool) :
    Follows lay ds t (exchange r cancelled) ⟨stage, !cancelled⟩ := by
  have hnext : t.next lay ds r = some ⟨stage, true⟩ := by
    cases r with
    | cancel => cases hr
    | _ => simp_all [Talk.next]
  cases cancelled with
  | false => exact Follows.single hnext
  | true => exact (Follows.single hnext).append (Follows.single (t := ⟨stage, true⟩) rfl)

end Talk

/-! ### Code that has a conversation -/

section Converses

variable (e : Env) (lay : Layout) (ds port : BitVec 16)

/-- From that stage on the code keeps to the conversation, and ends with a value and a stage that
satisfy `Q`. -/
def Converses {α : Type} (p : Code α) (stage : Stage) (Q : α → Stage → Prop) : Prop :=
  ∀ m pending, m.s = ds → ∃ rs t, Sends e lay port p m rs ∧
    Follows lay ds ⟨stage, pending⟩ rs t ∧ Q (value e p m) t.stage

variable {e lay ds port} {α β : Type} {stage : Stage}

/-- Code that sends nothing. -/
theorem Converses.of_silent {p : Code α} {Q : α → Stage → Prop} (hp : Silent e p)
    (hQ : ∀ m, m.s = ds → Q (value e p m) stage) : Converses e lay ds port p stage Q :=
  fun m pending hm => ⟨[], ⟨stage, pending⟩, hp.sends m, Follows.nil _, hQ m hm⟩

theorem Converses.ret {a : α} {Q : α → Stage → Prop} (hQ : Q a stage) :
    Converses e lay ds port (Program.ret a) stage Q :=
  Converses.of_silent (Silent.ret a) fun _ _ => hQ

theorem converses_mark (k : Mark) :
    Converses e lay ds port (mark k) stage fun _ stage' => stage' = stage :=
  fun m pending _ => ⟨[], ⟨stage, pending⟩, sends_mark k m, Follows.nil _, rfl⟩

/-- **A sequence goes on where its first part has ended.** -/
theorem Converses.bind {p : Code α} {f : α → Code β} {Q : α → Stage → Prop} {R : β → Stage → Prop}
    (hp : Converses e lay ds port p stage Q)
    (hf : ∀ a stage', Q a stage' → Converses e lay ds port (f a) stage' R) :
    Converses e lay ds port (p >>= f) stage R := by
  intro m pending hm
  obtain ⟨rs, t, hsends, hfollows, hQ⟩ := hp m pending hm
  obtain ⟨rs', t', hsends', hfollows', hR⟩ :=
    hf _ _ hQ (after e p m) t.pending (hsends.s_eq.trans hm)
  refine ⟨rs ++ rs', t', hsends.bind hsends', hfollows.append hfollows', ?_⟩
  rw [value_bind]
  exact hR

theorem Converses.mono {p : Code α} {Q R : α → Stage → Prop}
    (hp : Converses e lay ds port p stage Q) (hQR : ∀ a stage, Q a stage → R a stage) :
    Converses e lay ds port p stage R := by
  intro m pending hm
  obtain ⟨rs, t, hsends, hfollows, hQ⟩ := hp m pending hm
  exact ⟨rs, t, hsends, hfollows, hQR _ _ hQ⟩

/-- What is known of the value. -/
theorem Converses.and_value {p : Code α} {Q : α → Stage → Prop} {V : α → Prop}
    (hp : Converses e lay ds port p stage Q) (hV : ∀ m, V (value e p m)) :
    Converses e lay ds port p stage fun a stage => Q a stage ∧ V a := by
  intro m pending hm
  obtain ⟨rs, t, hsends, hfollows, hQ⟩ := hp m pending hm
  exact ⟨rs, t, hsends, hfollows, hQ, hV m⟩

theorem Converses.ite {c : Prop} [Decidable c] {p q : Code α} {Q : α → Stage → Prop}
    (hp : c → Converses e lay ds port p stage Q) (hq : ¬ c → Converses e lay ds port q stage Q) :
    Converses e lay ds port (if c then p else q) stage Q := by
  split_ifs with hc
  · exact hp hc
  · exact hq hc

/-- Code that sends one request that is not for a service. -/
theorem converses_single {p : Code α} {r : Request} {stage' : Stage} (hr : r.toService = false)
    (hp : ∀ m, Sends e lay port p m [r]) (hnext : stage.next lay ds r = some stage') :
    Converses e lay ds port p stage fun _ stage'' => stage'' = stage' := by
  refine fun m pending _ => ⟨[r], ⟨stage', false⟩, hp m, Follows.single ?_, rfl⟩
  cases r with
  | cancel => cases stage <;> cases hnext
  | _ => simp_all [Talk.next]

/-- Code that sends one request for a service. -/
theorem converses_exchange {p : Code α} {r : Request} {stage' : Stage} (hr : r.toService = true)
    (hp : ∀ m, m.s = ds → ∃ cancelled, Sends e lay port p m (exchange r cancelled))
    (hnext : stage.next lay ds r = some stage') :
    Converses e lay ds port p stage fun _ stage'' => stage'' = stage' := by
  intro m pending hm
  obtain ⟨cancelled, hsends⟩ := hp m hm
  exact ⟨_, _, hsends, follows_exchange hr hnext cancelled, rfl⟩

end Converses

/-! ### The parts of `main` -/

section Parts

variable {e : Env} {lay : Layout} {ds port : BitVec 16}

/-- The loop over the mappings asks for names. -/
theorem converses_mappingLoop (clientId : BitVec 32) (left mapping : ℕ) (ret : BitVec 16) :
    Converses e lay ds port (mappingLoop lay port clientId left mapping ret) (.listed clientId)
      fun _ stage => stage = .listed clientId := by
  induction left generalizing mapping ret with
  | zero => exact Converses.ret rfl
  | succ left ih =>
      refine Converses.bind (Q := fun _ stage => stage = .listed clientId)
        (Converses.of_silent (silent_mappingRoot mapping) fun _ _ => rfl) ?_
      rintro root _ rfl
      refine Converses.bind (converses_exchange
        (r := .queryMapName clientId root 262 (mkLinear ds lay.shfNameBuf)) rfl ?_
        (if_pos ⟨rfl, rfl, rfl⟩)) ?_
      · rintro m rfl
        exact sends_shflGetMapName clientId root 262 m
      · rintro ret _ rfl
        refine (converses_mark _).bind ?_
        rintro _ _ rfl
        exact ih (mapping + 1) ret

/-- The end of a session. -/
theorem converses_errorLabel (clientId : BitVec 32) (ret : BitVec 16) :
    Converses e lay ds port (errorLabel lay port clientId ret) (.listed clientId)
      fun _ stage => stage = .closed := by
  refine Converses.bind (converses_exchange (r := .disconnect clientId) rfl
    (fun m _ => sends_endSession clientId m) (if_pos rfl)) ?_
  rintro _ _ rfl
  exact Converses.ret rfl

/-- **From the query for the shares to the end of the session.** -/
theorem converses_listShares {known : Option (BitVec 32)} {clientId : BitVec 32}
    (hknown : known.getD clientId = clientId) :
    Converses e lay ds port (listShares lay port clientId) (.connected known)
      fun _ stage => stage = .closed := by
  refine Converses.bind (converses_exchange
    (r := .queryMappings clientId shflMaxMappings (mkLinear ds lay.mappings)) rfl ?_
    (if_pos ⟨hknown, rfl, rfl⟩)) ?_
  · rintro m rfl
    exact sends_shflGetMappings clientId shflMaxMappings m
  · rintro ⟨ret, numMappings⟩ _ rfl
    refine (converses_mark _).bind ?_
    rintro _ _ rfl
    refine Converses.ite (fun _ => converses_errorLabel clientId errNoShf) fun _ => ?_
    refine (converses_mappingLoop clientId numMappings.toNat 0 ret).bind ?_
    rintro ret _ rfl
    exact converses_errorLabel clientId ret

/-- The reports: both have been sent when they succeed. -/
theorem converses_reportGuest :
    Converses e lay ds port (reportGuest lay port) .loaded fun ret stage =>
      (ret = ok ∧ stage = .reported) ∨ (ret = fail ∧ (stage = .described ∨ stage = .reported)) := by
  refine Converses.bind
    (converses_single (r := .reportGuestInfo2) rfl sends_reportGuestInfo2 rfl) ?_
  rintro ret _ rfl
  have hend (ret : BitVec 16) (stage : Stage)
      (h : stage = .reported ∨ (ret ≠ vinfSuccess ∧ stage = .described)) :
      Converses e lay ds port (if ret ≠ vinfSuccess then Program.ret fail else Program.ret ok) stage
        fun ret stage => (ret = ok ∧ stage = .reported) ∨
          (ret = fail ∧ (stage = .described ∨ stage = .reported)) := by
    refine Converses.ite (fun _ => Converses.ret (.inr ⟨rfl, ?_⟩)) fun hret => ?_
    · exact (h.imp_right And.right).symm
    · exact Converses.ret (.inl ⟨rfl, h.resolve_right fun h => hret h.1⟩)
  refine Converses.ite (fun _ => ?_) fun hbad => ?_
  · refine Converses.bind
      (converses_single (r := .reportGuestInfo) rfl sends_reportGuestInfo rfl) ?_
    exact fun ret stage hstage => hend ret stage (.inl hstage)
  · exact hend ret .described (.inr ⟨fun h => hbad (.inl h), rfl⟩)

/-! ### Finding the device -/

/-- The port of the device, by the account of the PCI BIOS. -/
def pciPortOf (host : Host) (turn : ℕ) : Option (BitVec 16) :=
  let check := host.bios turn .installationCheck
  let device := host.bios (turn + 1) (.findDevice vmmdevPciVendor vmmdevPciDevice)
  let iobase := host.bios (turn + 2) (.readConfigWord (device.bx.extractLsb' 8 8)
    (device.bx.extractLsb' 0 8) pciOffsetIobase)
  if check.ax.extractLsb' 8 8 = 0 ∧ device.cflag = 0 ∧ iobase.cflag = 0 then
    some (iobase.cx &&& pciIoAddrMask)
  else none

/-- A bus number is not negative. -/
theorem slt_setWidth (b : BitVec 8) : (b.setWidth 16).slt 0 = false := by
  revert b
  decide

theorem value_pciCheck (m : Machine) : value e pciCheck m =
    if (e.host.bios m.turn .installationCheck).ax.extractLsb' 8 8 = 0 then
      ((e.host.bios m.turn .installationCheck).cx.extractLsb' 0 8).setWidth 16
    else -1 := by
  change value e (if (e.host.bios m.turn .installationCheck).ax.extractLsb' 8 8 = 0 then
      Program.ret (((e.host.bios m.turn .installationCheck).cx.extractLsb' 0 8).setWidth 16)
    else Program.ret (-1)) _ = _
  split_ifs
  · rfl
  · rfl

theorem after_pciCheck (m : Machine) : after e pciCheck m = { m with turn := m.turn + 1 } := by
  rw [pciCheck, after_bind]
  split_ifs
  · rfl
  · rfl

theorem value_pciGetIobase (bus devFunc : BitVec 8) (port : BitVec 16) (m : Machine) :
    value e (pciGetIobase bus devFunc port) m =
      if (e.host.bios m.turn (.readConfigWord bus devFunc pciOffsetIobase)).cflag ≠ 0 then
        (-1, port)
      else (0, (e.host.bios m.turn (.readConfigWord bus devFunc pciOffsetIobase)).cx &&&
        pciIoAddrMask) := by
  change value e (
    if (e.host.bios m.turn (.readConfigWord bus devFunc pciOffsetIobase)).cflag ≠ 0 then
      Program.ret (-1, port)
    else Program.ret (0, (e.host.bios m.turn (.readConfigWord bus devFunc pciOffsetIobase)).cx &&&
      pciIoAddrMask)) _ = _
  split_ifs
  · rfl
  · rfl

theorem after_pciGetIobase (bus devFunc : BitVec 8) (port : BitVec 16) (m : Machine) :
    after e (pciGetIobase bus devFunc port) m = { m with turn := m.turn + 1 } := by
  rw [pciGetIobase, after_bind]
  split_ifs
  · rfl
  · rfl

variable (e lay) in
/-- **The device is found as the BIOS says**, and before that nothing is written to a port. -/
theorem backdoorInit_cases (m : Machine) (pciPort : BitVec 16) :
    (pciPortOf e.host m.turn = none ∧ (value e (vboxAuxVBoxBackdoorInit lay pciPort) m).1 = fail ∧
      Emits m [] (after e (vboxAuxVBoxBackdoorInit lay pciPort) m)) ∨
    ∃ port, pciPortOf e.host m.turn = some port ∧
      value e (vboxAuxVBoxBackdoorInit lay pciPort) m =
        (value e (reportGuest lay port) { m with turn := m.turn + 3 }, port) ∧
      after e (vboxAuxVBoxBackdoorInit lay pciPort) m =
        after e (reportGuest lay port) { m with turn := m.turn + 3 } := by
  have hturn (k : ℕ) : Emits m [] { m with turn := k } := ⟨(List.append_nil _).symm, rfl, rfl⟩
  rw [vboxAuxVBoxBackdoorInit, value_bind, after_bind, value_pciCheck, after_pciCheck, pciPortOf]
  by_cases hcheck : (e.host.bios m.turn .installationCheck).ax.extractLsb' 8 8 = 0
  · rw [if_pos hcheck, slt_setWidth, if_neg Bool.false_ne_true, value_bind, after_bind]
    have hdevice : value e (pciFindDevice vmmdevPciVendor vmmdevPciDevice)
        { m with turn := m.turn + 1 } =
          let r := e.host.bios (m.turn + 1) (.findDevice vmmdevPciVendor vmmdevPciDevice)
          (r.cflag, r.bx.extractLsb' 8 8, r.bx.extractLsb' 0 8) :=
      rfl
    have hafter : after e (pciFindDevice vmmdevPciVendor vmmdevPciDevice)
        { m with turn := m.turn + 1 } = { m with turn := m.turn + 2 } := rfl
    rw [hdevice, hafter]
    generalize e.host.bios (m.turn + 1) (.findDevice vmmdevPciVendor vmmdevPciDevice) = device
    dsimp only
    by_cases hfound : device.cflag = 0
    · rw [if_neg (not_not.2 hfound), value_bind, after_bind, value_pciGetIobase, after_pciGetIobase]
      dsimp only
      by_cases hiobase : (e.host.bios (m.turn + 2) (.readConfigWord (device.bx.extractLsb' 8 8)
        (device.bx.extractLsb' 0 8) pciOffsetIobase)).cflag = 0
      · rw [if_neg (not_not.2 hiobase), if_pos ⟨hcheck, hfound, hiobase⟩]
        dsimp only
        rw [if_neg (not_not.2 rfl), value_bind, after_bind]
        exact .inr ⟨_, rfl, rfl, rfl⟩
      · rw [if_pos hiobase, if_neg fun h => hiobase h.2.2]
        exact .inl ⟨rfl, rfl, hturn _⟩
    · rw [if_pos hfound, if_neg fun h => hfound h.2.1]
      exact .inl ⟨rfl, rfl, hturn _⟩
  · have hminus : (-1 : BitVec 16).slt 0 = true := by decide
    dsimp only
    rw [if_neg hcheck, if_pos hminus, if_neg fun h => hcheck h.1]
    exact .inl ⟨rfl, rfl, hturn _⟩

/-- The stages that a conversation may end in: no session has been asked for its shares, or it has
been ended. -/
def Stage.Ended (stage : Stage) : Prop := ∀ clientId, stage ≠ .listed clientId

theorem Stage.ended_loaded : Stage.loaded.Ended := by
  intro _ h
  cases h

theorem Stage.ended_versioned : Stage.versioned.Ended := by
  intro _ h
  cases h

theorem Stage.ended_connected (clientId : Option (BitVec 32)) :
    (Stage.connected clientId).Ended := by
  intro _ h
  cases h

theorem Stage.ended_closed : Stage.closed.Ended := by
  intro _ h
  cases h

theorem value_getVersion (m : Machine) : value e (vboxAuxGetVersion lay port) m = ok ∨
    value e (vboxAuxGetVersion lay port) m = fail := by
  rw [vboxAuxGetVersion, value_bind]
  split_ifs
  · exact .inl rfl
  · exact .inr rfl

/-- The reports and the version, once the port is known. -/
theorem converses_initTail :
    Converses e lay ds port (do
      let ret ← reportGuest lay port
      if ret ≠ 0 then return (ret, port)
      else
        let ret ← vboxAuxGetVersion lay port
        return (ret, port)) .loaded fun out stage => out.2 = port ∧
          ((out.1 = ok ∧ stage = .versioned) ∨ (out.1 = fail ∧ stage.Ended)) := by
  refine converses_reportGuest.bind fun ret stage hret =>
    Converses.ite (fun hne => ?_) fun hne => ?_
  · rcases hret with ⟨hok, -⟩ | ⟨hfail, hstage⟩
    · exact absurd hok hne
    · refine Converses.ret ⟨rfl, .inr ⟨hfail, fun clientId h => ?_⟩⟩
      rcases hstage with rfl | rfl
      · cases h
      · cases h
  · rcases hret with ⟨-, rfl⟩ | ⟨hfail, -⟩
    · have hversion : Converses e lay ds port (vboxAuxGetVersion lay port) .reported
          fun ret stage => stage = .versioned ∧ (ret = ok ∨ ret = fail) :=
        (converses_single (r := .getHostVersion) rfl sends_getVersion rfl).and_value
          value_getVersion
      refine hversion.bind ?_
      rintro ret _ ⟨rfl, hret⟩
      exact Converses.ret ⟨rfl, hret.imp (⟨·, rfl⟩) (⟨·, Stage.ended_versioned⟩)⟩
    · exact absurd (hfail.symm.trans (not_not.1 hne)) (by decide)

variable (e lay) in
/-- `VBoxAuxInitVirtual` loads `s`, looks for the device, and reports to it. -/
theorem initVirtual_conversation (m : Machine) (pciPort : BitVec 16) :
    (pciPortOf e.host m.turn = none ∧ (value e (vboxAuxInitVirtual lay pciPort) m).1 = fail ∧
      Emits { m with s := e.ds } [] (after e (vboxAuxInitVirtual lay pciPort) m)) ∨
    ∃ port es rs t, pciPortOf e.host m.turn = some port ∧
      (value e (vboxAuxInitVirtual lay pciPort) m).2 = port ∧
      Emits { m with s := e.ds } es (after e (vboxAuxInitVirtual lay pciPort) m) ∧
      Speaks lay e.ds port es rs ∧ Follows lay e.ds ⟨.loaded, false⟩ rs t ∧
      (((value e (vboxAuxInitVirtual lay pciPort) m).1 = ok ∧ t.stage = .versioned) ∨
        ((value e (vboxAuxInitVirtual lay pciPort) m).1 = fail ∧ t.stage.Ended)) := by
  have hsegread : after e segread m = { m with s := e.ds } := rfl
  rw [vboxAuxInitVirtual, value_bind, after_bind, hsegread, value_bind, after_bind]
  rcases backdoorInit_cases e lay { m with s := e.ds } pciPort with
    ⟨hnone, hfail, hemits⟩ | ⟨port, hsome, hvalue, hafter⟩
  · have hne : (value e (vboxAuxVBoxBackdoorInit lay pciPort) { m with s := e.ds }).1 ≠ 0 := by
      rw [hfail]
      decide
    simp only [if_pos hne]
    exact .inl ⟨hnone, hfail, hemits⟩
  · obtain ⟨rs, t, ⟨es, hes, hspeaks⟩, hfollows, hport, hout⟩ :=
      (converses_initTail : Converses e lay e.ds port _ _ _)
        { m with s := e.ds, turn := m.turn + 3 } false rfl
    rw [hvalue, hafter]
    rw [value_bind] at hport hout
    rw [after_bind] at hes
    exact .inr ⟨port, es, rs, t, hsome, hport, ⟨hes.trace, hes.s, hes.dos⟩, hspeaks, hfollows, hout⟩

/-- The session of a run, once the device is known. -/
theorem converses_newSession (clientId : BitVec 32) :
    Converses e lay ds port (newSession lay port clientId) .versioned
      fun _ stage => stage.Ended := by
  refine Converses.bind (converses_exchange (r := .connect) rfl
    (fun m _ => sends_beginSession clientId m) rfl) ?_
  rintro ⟨ret, clientId⟩ _ rfl
  refine Converses.ite (fun _ => Converses.ret (Stage.ended_connected _)) fun _ => ?_
  refine (converses_mark _).bind ?_
  rintro _ _ rfl
  refine Converses.mono (converses_listShares rfl) ?_
  rintro out _ rfl
  exact Stage.ended_closed

end Parts

/-! ### Runs of `main` -/

section Runs

variable (e : Env) (lay : Layout) (m : Machine)

/-- A run that opens a session of its own. -/
theorem openSession_conversation (inv : Invocation) (uninstall : BitVec 16) : ∃ es rs t,
    (after e (openSession lay inv uninstall) m).trace = m.trace ++ es ∧
      (after e (openSession lay inv uninstall) m).dos = m.dos ∧
      Speaks lay e.ds ((pciPortOf e.host m.turn).getD 0) es rs ∧
      Follows lay e.ds ⟨.loaded, false⟩ rs t ∧ t.stage.Ended ∧
      (pciPortOf e.host m.turn = none → rs = []) := by
  have hnothing {out : Outcome} : ∃ es rs t,
      (after e (Program.ret out : Code Outcome) m).trace = m.trace ++ es ∧
        (after e (Program.ret out : Code Outcome) m).dos = m.dos ∧
        Speaks lay e.ds ((pciPortOf e.host m.turn).getD 0) es rs ∧
        Follows lay e.ds ⟨.loaded, false⟩ rs t ∧ t.stage.Ended ∧
        (pciPortOf e.host m.turn = none → rs = []) :=
    ⟨[], [], _, (List.append_nil _).symm, rfl, .nil, Follows.nil _, Stage.ended_loaded,
      fun _ => rfl⟩
  by_cases hmount : uninstall = 0
  swap
  · rw [openSession, if_pos hmount]
    exact hnothing
  by_cases hallowed : inv.installationCheck = 1
  · rw [openSession, if_neg (not_not.2 hmount), if_pos hallowed]
    exact hnothing
  rw [openSession_eq lay hmount hallowed, after_bind]
  rcases initVirtual_conversation e lay m inv.pciPort with
    ⟨hnone, hfail, hemits⟩ | ⟨port, es, rs, t, hsome, hport, hemits, hspeaks, hfollows, hout⟩
  · dsimp only
    rw [if_pos hfail.symm]
    exact ⟨[], [], _, hemits.trace, hemits.dos, .nil, Follows.nil _, Stage.ended_loaded,
      fun _ => rfl⟩
  · dsimp only
    rw [hport, hsome, Option.getD_some]
    rcases hout with ⟨hok, hstage⟩ | ⟨hfail, hended⟩
    · have hne : fail ≠ (value e (vboxAuxInitVirtual lay inv.pciPort) m).1 := by
        rw [hok]
        decide
      rw [if_neg hne]
      obtain ⟨stage, pending⟩ := t
      obtain rfl : stage = .versioned := hstage
      obtain ⟨rs', t', ⟨fs, hfs, hspeaks'⟩, hfollows', hended⟩ :=
        (converses_newSession inv.clientId : Converses e lay e.ds port _ _ _) _ pending hemits.s
      rw [hemits.s] at hspeaks'
      refine ⟨es ++ fs, rs ++ rs', t', ?_, hfs.dos.trans hemits.dos, hspeaks.append hspeaks',
        hfollows.append hfollows', hended,
        fun h => absurd h (Option.some_ne_none _)⟩
      rw [← List.append_assoc]
      exact hfs.trace.trans (congrArg (· ++ fs) hemits.trace)
    · rw [if_pos hfail.symm]
      exact ⟨es, rs, t, hemits.trace, hemits.dos, hspeaks, hfollows, hended,
        fun h => absurd h (Option.some_ne_none _)⟩

/-- What a run of `main` sends, and how far its conversation gets. -/
theorem main_sends (inv : Invocation) (shared : Shared) (dos : Dos) :
    (∃ pciPort clientId rs t, inv.Searches ∧ (search dos).1 = some (pciPort, clientId) ∧
        Speaks lay 0 pciPort (after e (main lay inv) (boot shared dos)).trace rs ∧
        Follows lay 0 ⟨.connected (some clientId), false⟩ rs t ∧ t.stage = .closed) ∨
      (¬ FindsResident inv dos ∧ ∃ rs t,
        Speaks lay e.ds ((pciPortOf e.host 0).getD 0)
          (after e (main lay inv) (boot shared dos)).trace rs ∧
        Follows lay e.ds ⟨.loaded, false⟩ rs t ∧ t.stage.Ended ∧
        (pciPortOf e.host 0 = none → rs = [])) := by
  by_cases hsearches : inv.Searches
  · rw [after, run_main_of_searches e lay hsearches, ← after]
    cases hfound : (search dos).1 with
    | some session =>
        obtain ⟨pciPort, clientId⟩ := session
        obtain ⟨rs, t, ⟨es, hes, hspeaks⟩, hfollows, hclosed⟩ :=
          (converses_listShares rfl : Converses e lay 0 pciPort (listShares lay pciPort clientId)
            (.connected (some clientId)) _) (boot shared (search dos).2) false rfl
        refine .inl ⟨pciPort, clientId, rs, t, hsearches, rfl, ?_, hfollows, hclosed⟩
        rw [hes.trace]
        exact hspeaks
    | none =>
        obtain ⟨es, rs, t, htrace, -, hspeaks, hfollows, hended, hnone⟩ :=
          openSession_conversation e lay (boot shared (search dos).2) inv
            (getOptions inv.argString Options.start).2.uninstall
        refine .inr ⟨fun h => ?_, rs, t, ?_, hfollows, hended, hnone⟩
        · have hsome := h.2
          rw [← search, hfound] at hsome
          cases hsome
        · rw [htrace]
          exact hspeaks
  · obtain ⟨out, hmain⟩ := main_of_not_searches lay hsearches
    rw [hmain]
    exact .inr ⟨fun h => hsearches h.1, [], _, .nil, Follows.nil _, Stage.ended_loaded,
      fun _ => rfl⟩

/-- The segment, the port and the stage with which a run joins the conversation: those of the
resident copy, where `s` has not been loaded, or those of a session of its own. -/
def whereItJoins (dos : Dos) : BitVec 16 × BitVec 16 × Stage :=
  match (search dos).1 with
  | some (pciPort, clientId) => (0, pciPort, .connected (some clientId))
  | none => (e.ds, (pciPortOf e.host 0).getD 0, .loaded)

/-- **Nothing is written to a port that has not been found before.**  The port of every write is
that of the resident copy, or the one that the PCI BIOS has given for the device; where the BIOS
gives none, a run that finds no resident copy writes to no port. -/
theorem main_port (inv : Invocation) (shared : Shared) (dos : Dos) {w : PortWrite}
    (hw : .out w ∈ (after e (main lay inv) (boot shared dos)).trace) :
    (∃ clientId, (search dos).1 = some (w.port, clientId)) ∨ pciPortOf e.host 0 = some w.port := by
  have hport {ds port : BitVec 16} {rs : List Request}
      (h : Speaks lay ds port (after e (main lay inv) (boot shared dos)).trace rs) :
      rs ≠ [] ∧ w.port = port := by
    have hmem : w ∈ writes (after e (main lay inv) (boot shared dos)).trace :=
      List.mem_filterMap.2 ⟨.out w, hw, rfl⟩
    have hread := List.mem_map_of_mem (f := fun w : PortWrite =>
      (w.port, w.value, Request.decode w.block)) hmem
    rw [h.map_eq] at hread
    obtain ⟨r, hr, heq⟩ := List.mem_map.1 hread
    exact ⟨List.ne_nil_of_mem hr, (congrArg Prod.fst heq).symm⟩
  rcases main_sends e lay inv shared dos with
    ⟨pciPort, clientId, rs, t, -, hsome, hspeaks, -⟩ | ⟨-, rs, t, hspeaks, -, -, hnone⟩
  · rw [(hport hspeaks).2]
    exact .inl ⟨clientId, hsome⟩
  · obtain ⟨hne, heq⟩ := hport hspeaks
    cases hfound : pciPortOf e.host 0 with
    | none => exact absurd (hnone hfound) hne
    | some port =>
        rw [heq, hfound]
        exact .inr rfl

end Runs

/-- The run that finds a resident copy writes to its port. -/
theorem main_port_resident : ∃ w : PortWrite,
    (∃ clientId, (search (dosWithMounts [4])).1 = some (w.port, clientId)) ∨
      pciPortOf silentEnv.host 0 = some w.port := by
  obtain ⟨ret, rets, hasks⟩ := plainInvocation_asksForShares silentEnv ⟨fun _ => 0, fun _ => 0⟩
  have hdisconnect := List.mem_singleton_self ((0xD020 : BitVec 16), (1 : BitVec 32))
  rw [← hasks.recorded.disconnects] at hdisconnect
  obtain ⟨w, hw⟩ := exists_out_of_mem_disconnects hdisconnect
  exact ⟨w, main_port silentEnv sampleLayout plainInvocation _ _ hw⟩

end Vbsmount

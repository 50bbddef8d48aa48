/-
**A run of `main` next to a host that has shares.**

A host that answers every request, at once or in time, is all that a run needs: it reports itself,
opens a session, asks for the shares, asks for the name of each of them, and ends the session.  What
it returns is the result for the last name.

Main definitions:

* `Offers` — a host that answers, and has the shares with the given roots and results;
* `listing` — the requests of a run next to it;
* `sharing` — such a host.

Main results:

* `service_answered` — a request to a service that is answered;
* `mappingLoop_lists`, `listShares_lists` — the names are asked for one by one;
* `marks_listShares`, `marks_newSession` — so the results are those that the host has for them;
* `main_lists` — **next to a host that answers, a run asks for the name of each share once, in their
  order, ends its session and returns the result for the last of them**.
-/

import Vbsmount.Conversation
import Vbsmount.MappingCount

set_option relaxedAutoImplicit false
set_option autoImplicit false

namespace Vbsmount

open Bytes VmmDev

/-! ### Hosts that answer -/

/-- The host replies to the request with something that satisfies `P`. -/
def AnswersWith (host : Host) (r : Request) (P : Shared → Shared → Prop) : Prop :=
  ∀ turn w s, r.Carried w.block → s.request = w.block →
    ∃ a, Replies host (turn + 1) (host.onOut turn w s) a ∧ P s a

/-- A host that answers, with a device that is found, a session `clientId` and shares `roots`; the
query for the name of a share has the given result. -/
structure Offers (host : Host) (clientId : BitVec 32) (roots : List (BitVec 32))
    (result : BitVec 32 → BitVec 16) : Prop where
  device : (pciPortOf host 0).isSome
  reports : ∀ r ∈ [Request.reportGuestInfo2, .reportGuestInfo, .getHostVersion], ∀ turn w s,
    r.Carried w.block → s.request = w.block → (host.onOut turn w s).rc = vinfSuccess
  connects : AnswersWith host .connect fun _ a =>
    a.result = vinfSuccess ∧ a.request.get32 164 = clientId
  lists : ∀ addr, AnswersWith host (.queryMappings clientId shflMaxMappings addr) fun _ a =>
    a.result = vinfSuccess ∧ a.numberOfMappings.toNat = roots.length ∧
      ∀ i (h : i < roots.length), a.mappings i = roots[i]
  names : ∀ root ∈ roots, ∀ addr, AnswersWith host (.queryMapName clientId root 262 addr) fun s a =>
    a.result = result root ∧ a.mappings = s.mappings

/-! ### A request that is answered -/

section Answered

variable {e : Env} {lay : Layout} {port : BitVec 16} {m : Machine}

/-- **A request to a service that is answered** is not cancelled, and leaves the answer. -/
theorem service_answered {α : Type} {r : Request} {p : Code α} {fill : Code Unit}
    {look : BitVec 16 → Code α} {P : Shared → Shared → Prop}
    (hp : p = do fill; look (← vboxAuxSendHGCMRequest lay port r.type r.size))
    (hr : r.toService = true) (hfill : Silent e fill)
    (hfilled : r.Filled (after e fill m).shared.request) (hlook : ∀ ret, Silent e (look ret))
    (hreply : AnswersWith e.host r P) : ∃ s m', P s m'.shared ∧
      s.mappings = (after e fill m).shared.mappings ∧ value e p m = value e (look vinfSuccess) m' ∧
      after e p m = after e (look vinfSuccess) m' ∧ Sends e lay port p m [r] := by
  subst hp
  obtain ⟨a, hreplies, hP⟩ := hreply (after e fill m).turn
    ⟨port, mkLinear (after e fill m).s lay.request, serviceBlock r (after e fill m).shared.request⟩
    { (after e fill m).shared with request := serviceBlock r (after e fill m).shared.request }
    (Request.carried_serviceBlock hr hfilled) rfl
  rcases sendHGCMRequest_cases e lay (after e fill m) port r.type r.size with
    ⟨hvalue, hshared⟩ | ⟨-, hnone⟩
  · obtain ⟨cancelled, hsends, htimeout⟩ : ∃ cancelled, Sends e lay port
        (vboxAuxSendHGCMRequest lay port r.type r.size) (after e fill m)
          (exchange r cancelled) ∧ _ :=
      sends_sendHGCMRequest hr hfilled
    have hcancelled : cancelled = false := by
      cases cancelled with
      | false => rfl
      | true => exact absurd (hvalue.symm.trans (htimeout rfl)) (by decide)
    subst hcancelled
    have ha := hshared.unique hreplies
    refine ⟨{ (after e fill m).shared with
        request := serviceBlock r (after e fill m).shared.request },
      after e (vboxAuxSendHGCMRequest lay port r.type r.size) (after e fill m), ?_, rfl, ?_, ?_,
      hfill.bind_sends (hsends.of_bind_silent hlook)⟩
    · rw [ha]
      exact hP
    · rw [value_bind, value_bind, hvalue]
    · rw [after_bind, after_bind, hvalue]
  · exact absurd hreplies (hnone a)

variable {clientId : BitVec 32} {roots : List (BitVec 32)} {result : BitVec 32 → BitVec 16}

variable (lay port) in
/-- The session that is opened. -/
theorem beginSession_answered (h : Offers e.host clientId roots result) (c : BitVec 32) :
    value e (vboxAuxBeginSession lay port c) m = (ok, clientId) ∧
      Sends e lay port (vboxAuxBeginSession lay port c) m [.connect] := by
  obtain ⟨s, m', ⟨hresult, hclient⟩, -, hvalue, -, hsends⟩ := service_answered (r := .connect)
    (p := vboxAuxBeginSession lay port c) rfl rfl silent_fillHgcmConnect (filled_connect e m)
    (fun _ => silent_look fun _ => silent_lookFurther) h.connects
  have hload : (value e (load32 offResult) m').setWidth 16 = vinfSuccess := hresult
  refine ⟨hvalue.trans ?_, hsends⟩
  rw [if_pos rfl, value_bind]
  simp only [if_pos hload]
  exact congrArg (Prod.mk ok) hclient

variable (lay port) in
/-- The shares are asked for. -/
theorem shflGetMappings_answered (h : Offers e.host clientId roots result) :
    (∃ num, value e (vboxAuxShflGetMappings lay port clientId shflMaxMappings) m =
        (vinfSuccess, num) ∧ num.toNat = roots.length) ∧
      (∀ i (hi : i < roots.length), (after e (vboxAuxShflGetMappings lay port clientId
        shflMaxMappings) m).shared.mappings i = roots[i]) ∧
      Sends e lay port (vboxAuxShflGetMappings lay port clientId shflMaxMappings) m
        [.queryMappings clientId shflMaxMappings (mkLinear m.s lay.mappings)] := by
  obtain ⟨s, m', ⟨hresult, hnum, hroots⟩, -, hvalue, hafter, hsends⟩ := service_answered
    (r := .queryMappings clientId shflMaxMappings (mkLinear m.s lay.mappings))
    (p := vboxAuxShflGetMappings lay port clientId shflMaxMappings) rfl rfl
    (silent_fillQueryMappings e lay _ _) (filled_queryMappings e lay clientId shflMaxMappings m)
    (fun _ => silent_look fun _ => silent_lookFurther) (h.lists _)
  have hload : (value e (load32 offResult) m').setWidth 16 = vinfSuccess := hresult
  rw [hafter]
  refine ⟨⟨m'.shared.numberOfMappings, hvalue.trans ?_, hnum⟩, ?_, hsends⟩
  · rw [if_pos rfl, value_bind]
    simp only [hload, true_or, if_true]
    rfl
  · rw [if_pos rfl, after_bind]
    simp only [hload, true_or, if_true]
    exact hroots

variable (lay port) in
/-- A name is asked for. -/
theorem shflGetMapName_answered (h : Offers e.host clientId roots result) {root : BitVec 32}
    (hroot : root ∈ roots) :
    value e (vboxAuxShflGetMapName lay port clientId root 262) m = result root ∧
      (after e (vboxAuxShflGetMapName lay port clientId root 262) m).shared.mappings =
        m.shared.mappings ∧
      Sends e lay port (vboxAuxShflGetMapName lay port clientId root 262) m
        [.queryMapName clientId root 262 (mkLinear m.s lay.shfNameBuf)] := by
  obtain ⟨s, m', ⟨hresult, hmappings⟩, hs, hvalue, hafter, hsends⟩ := service_answered
    (r := .queryMapName clientId root 262 (mkLinear m.s lay.shfNameBuf))
    (p := vboxAuxShflGetMapName lay port clientId root 262) rfl rfl
    (silent_fillQueryMapName e lay _ _ _) (filled_queryMapName e lay clientId root 262 m)
    (fun _ => silent_look fun _ => Silent.ret _) (h.names root hroot _)
  rw [hafter]
  refine ⟨hvalue.trans ?_, ?_, hsends⟩
  · rw [if_pos rfl, value_bind]
    exact hresult
  · rw [if_pos rfl, after_bind]
    exact hmappings.trans hs

/-! ### The reports -/

/-- A request that is not for a service, and is answered with a success. -/
theorem sendRequest_answered {r : Request} (hr : r.toService = false)
    (hfilled : r.Filled m.shared.request)
    (h : ∀ turn w s, r.Carried w.block → s.request = w.block →
      (e.host.onOut turn w s).rc = vinfSuccess) :
    value e (vboxAuxSendRequest lay port r.type r.size) m = vinfSuccess :=
  h m.turn ⟨port, mkLinear m.s lay.request, withHeader r.type r.size m.shared.request⟩
    { m.shared with request := withHeader r.type r.size m.shared.request }
    (Request.carried_withHeader (fun h => by rw [hr] at h; cases h) hfilled) rfl

variable (lay port) in
/-- Both reports are sent. -/
theorem reportGuest_answered (h : Offers e.host clientId roots result) :
    value e (reportGuest lay port) m = ok ∧
      Sends e lay port (reportGuest lay port) m [.reportGuestInfo2, .reportGuestInfo] := by
  have hinfo2 : value e (vboxAuxReportGuestInfo2 lay port) m = vinfSuccess :=
    sendRequest_answered (r := .reportGuestInfo2) (m := { m with shared := { m.shared with
      request := (((((m.shared.request.put16 24 4).put16 (24 + 2) 0).put32 28 0).put32 32 0).put32
        36 0).write 40 (cstring "4.0.0_VBSMOUNT-0.1") } }) rfl (filled_reportGuestInfo2 _)
      (h.reports _ (by simp))
  have hinfo (m' : Machine) : value e (vboxAuxReportGuestInfo lay port) m' = vinfSuccess :=
    sendRequest_answered (r := .reportGuestInfo) (m := { m' with shared := { m'.shared with
      request := (m'.shared.request.put32 24 vmmdevVersion).put32 28 vboxOstypeDos } }) rfl
      (filled_reportGuestInfo _) (h.reports _ (by simp))
  constructor
  · rw [reportGuest, value_bind, hinfo2, if_pos (Or.inl rfl), value_bind, hinfo]
    rfl
  · refine Sends.bind (sends_reportGuestInfo2 m) ?_
    rw [hinfo2, if_pos (Or.inl rfl)]
    exact (sends_reportGuestInfo _).of_bind_silent fun _ => (Silent.ret _).ite (Silent.ret _)

/-- The version is asked for. -/
theorem getVersion_answered (h : Offers e.host clientId roots result) :
    value e (vboxAuxGetVersion lay port) m = ok := by
  have hsend : value e (vboxAuxSendRequest lay port reqGetHostVersion 40) m = vinfSuccess :=
    sendRequest_answered (r := .getHostVersion) rfl (filled_getHostVersion _)
      (h.reports _ (by simp))
  rw [vboxAuxGetVersion, value_bind, hsend, if_pos rfl]
  rfl

/-! ### The shares -/

variable (lay) in
/-- The requests for the names of the shares with the given roots. -/
def queryNames (ds : BitVec 16) (clientId : BitVec 32) (roots : List (BitVec 32)) : List Request :=
  roots.map fun root => .queryMapName clientId root 262 (mkLinear ds lay.shfNameBuf)

/-- What is recorded of a part is recorded of the run. -/
theorem marks_after {m' : Machine} {ds : BitVec 16} {es : List Event} {ms : List Mark}
    {cs : List (BitVec 16 × BitVec 32)} (h : Emits m es m') (hrec : Recorded lay ds es ms cs) :
    marks m'.trace = marks m.trace ++ ms := by
  rw [h.trace, ← hrec.marks]
  exact List.filterMap_append ..

theorem marks_mark (k : Mark) : marks (after e (mark k) m).trace = marks m.trace ++ [k] :=
  List.filterMap_append ..

variable (lay port) in
/-- **The names are asked for one by one**, and the value is the result for the last of them. -/
theorem mappingLoop_lists (h : Offers e.host clientId roots result) (left mapping : ℕ)
    (ret : BitVec 16) (hlength : mapping + left = roots.length)
    (hroots : ∀ i (hi : i < roots.length), m.shared.mappings i = roots[i]) :
    value e (mappingLoop lay port clientId left mapping ret) m =
        ((roots.drop mapping).map result).getLast?.getD ret ∧
      marks (after e (mappingLoop lay port clientId left mapping ret) m).trace =
        marks m.trace ++ ((roots.drop mapping).map result).map .gotMapName ∧
      Sends e lay port (mappingLoop lay port clientId left mapping ret) m
        (queryNames lay m.s clientId (roots.drop mapping)) := by
  induction left generalizing mapping ret m with
  | zero =>
      rw [List.drop_eq_nil_of_le (by omega)]
      exact ⟨rfl, (List.append_nil _).symm, (Silent.ret _).sends _⟩
  | succ left ih =>
      have hmapping : mapping < roots.length := by omega
      have hroot : value e (mappingRoot mapping) m = roots[mapping] := hroots mapping hmapping
      have hm : after e (mappingRoot mapping) m = m := rfl
      obtain ⟨hret, hmappings, hsends⟩ :=
        shflGetMapName_answered lay port (m := m) h (List.getElem_mem hmapping)
      have hs := hsends.s_eq
      obtain ⟨es, hes, hrec⟩ := shflGetMapName_spec e lay m port clientId roots[mapping] 262
      have hmarks := marks_after hes hrec
      have hkept (i : ℕ) (hi : i < roots.length) : (after e (mark (.gotMapName
          (result roots[mapping]))) (after e (vboxAuxShflGetMapName lay port clientId roots[mapping]
            262) m)).shared.mappings i = roots[i] :=
        (congrFun hmappings i).trans (hroots i hi)
      obtain ⟨hvalue, hnames, hrest⟩ :=
        ih (mapping + 1) (result roots[mapping]) (by omega) hkept
      rw [(sends_mark _ _ : Sends e lay port _ _ _).s_eq, hs] at hrest
      rw [marks_mark, hmarks, List.append_nil] at hnames
      rw [mappingLoop, value_bind, after_bind, hroot, hm, value_bind, after_bind, hret, value_bind,
        after_bind, List.drop_eq_getElem_cons hmapping, queryNames, List.map_cons, ← queryNames]
      refine ⟨hvalue.trans ?_, hnames.trans ?_, (silent_mappingRoot mapping).bind_sends ?_⟩
      · rw [List.getLast?_cons, Option.getD_some]
      · rw [List.map_cons, List.append_assoc, List.singleton_append]
      · rw [hroot, hm]
        refine hsends.bind ?_
        rw [hret]
        exact (sends_mark _ _).bind hrest

variable (lay port) in
/-- **The shares and their names are asked for, and the session is ended.** -/
theorem listShares_lists (h : Offers e.host clientId roots result) :
    value e (listShares lay port clientId) m =
        .returned ((roots.map result).getLast?.getD vinfSuccess) ∧
      marks (after e (listShares lay port clientId) m).trace =
        marks m.trace ++ .gotMappings vinfSuccess :: (roots.map result).map .gotMapName ∧
      ∃ cancelled, Sends e lay port (listShares lay port clientId) m
        (.queryMappings clientId shflMaxMappings (mkLinear m.s lay.mappings) ::
          (queryNames lay m.s clientId roots ++ exchange (.disconnect clientId) cancelled)) := by
  obtain ⟨⟨num, hvalue, hnum⟩, hroots, hsends⟩ :=
    shflGetMappings_answered lay port (m := m) h
  have hs := hsends.s_eq
  obtain ⟨es, hes, hrec⟩ := shflGetMappings_spec e lay m port clientId shflMaxMappings
  have hmarks := marks_after hes hrec
  obtain ⟨hloop, hnames, hqueries⟩ := mappingLoop_lists lay port
    (m := after e (mark (.gotMappings vinfSuccess))
      (after e (vboxAuxShflGetMappings lay port clientId shflMaxMappings) m)) h num.toNat 0
    vinfSuccess (by omega) hroots
  rw [(sends_mark _ _ : Sends e lay port _ _ _).s_eq, hs, List.drop_zero] at hqueries
  rw [marks_mark, hmarks, List.append_nil, List.drop_zero] at hnames
  rw [List.drop_zero] at hloop
  generalize hm : after e (mark (.gotMappings vinfSuccess))
    (after e (vboxAuxShflGetMappings lay port clientId shflMaxMappings) m) = m₁ at *
  obtain ⟨cancelled, hend⟩ : ∃ cancelled, Sends e lay port (vboxAuxEndSession lay port clientId)
    (after e (mappingLoop lay port clientId num.toNat 0 vinfSuccess) m₁)
    (exchange (.disconnect clientId) cancelled) := sends_endSession clientId _
  obtain ⟨fs, hfs, hrec', -⟩ := endSession_spec e lay
    (after e (mappingLoop lay port clientId num.toNat 0 vinfSuccess) m₁) port clientId
  have hended := marks_after hfs hrec'
  rw [listShares, value_bind, after_bind, hvalue, value_bind, after_bind, hm,
    if_neg (not_not.2 rfl), value_bind, after_bind, value_errorLabel, after_errorLabel, hloop]
  refine ⟨rfl, ?_, cancelled, ?_⟩
  · rw [hended, hnames, List.append_nil, List.append_assoc, List.singleton_append]
  · refine hsends.bind ?_
    rw [hvalue]
    refine (sends_mark _ _).bind ?_
    rw [hm, if_neg (not_not.2 rfl)]
    refine hqueries.bind ?_
    rw [hloop]
    exact hend.of_bind_silent fun _ => Silent.ret _

/-! ### Runs of `main` -/

variable (lay) in
/-- The device is found, and is told of the guest. -/
theorem initVirtual_answered (h : Offers e.host clientId roots result) (pciPort : BitVec 16)
    (hturn : m.turn = 0) : ∃ port es, pciPortOf e.host 0 = some port ∧
      value e (vboxAuxInitVirtual lay pciPort) m = (ok, port) ∧
      Emits { m with s := e.ds } es (after e (vboxAuxInitVirtual lay pciPort) m) ∧
      Speaks lay e.ds port es [.reportGuestInfo2, .reportGuestInfo, .getHostVersion] := by
  have hsegread : after e segread m = { m with s := e.ds } := rfl
  rcases backdoorInit_cases e lay { m with s := e.ds } pciPort with
    ⟨hnone, -, -⟩ | ⟨port, hsome, hvalue, hafter⟩
  · have hdevice := h.device
    rw [hturn] at hnone
    rw [hnone] at hdevice
    cases hdevice
  · obtain ⟨hret, hreports⟩ := reportGuest_answered lay port
      (m := { m with s := e.ds, turn := m.turn + 3 }) h
    rw [hret] at hvalue
    have hversion : Sends e lay port (vboxAuxGetVersion lay port >>= fun ret => pure (ret, port))
        (after e (reportGuest lay port) { m with s := e.ds, turn := m.turn + 3 })
        [.getHostVersion] := (sends_getVersion _).of_bind_silent fun _ => Silent.ret _
    obtain ⟨es, hes, hspeaks⟩ := Sends.bind
      (f := fun _ => vboxAuxGetVersion lay port >>= fun ret => pure (ret, port)) hreports hversion
    rw [hturn] at hsome
    have hok : ¬ ok ≠ 0 := by decide
    refine ⟨port, es, hsome, ?_, ?_, hspeaks⟩
    · rw [vboxAuxInitVirtual, value_bind, hsegread, value_bind, hvalue, hafter]
      dsimp only
      rw [if_neg hok, value_bind, getVersion_answered h]
      rfl
    · rw [vboxAuxInitVirtual, after_bind, hsegread, after_bind, hvalue, hafter]
      dsimp only
      rw [if_neg hok]
      rw [after_bind] at hes
      exact ⟨hes.trace, hes.s, hes.dos⟩

variable (e lay port) in
/-- The session, once the device has been told of the guest. -/
theorem newSession_lists (h : Offers e.host clientId roots result) (c : BitVec 32) :
    value e (newSession lay port c) m =
        .returned ((roots.map result).getLast?.getD vinfSuccess) ∧
      marks (after e (newSession lay port c) m).trace = marks m.trace ++
        .sessionOpened port clientId :: .gotMappings vinfSuccess ::
          (roots.map result).map .gotMapName ∧
      ∃ cancelled, Sends e lay port (newSession lay port c) m
        (.connect :: .queryMappings clientId shflMaxMappings (mkLinear m.s lay.mappings) ::
          (queryNames lay m.s clientId roots ++ exchange (.disconnect clientId) cancelled)) := by
  obtain ⟨hbegin, hconnect⟩ := beginSession_answered lay port (m := m) h c
  have hs := hconnect.s_eq
  obtain ⟨es, hes, hrec⟩ := beginSession_spec e lay m port c
  have hmarks := marks_after hes hrec
  obtain ⟨hvalue, hnames, cancelled, hlists⟩ := listShares_lists lay port
    (m := after e (mark (.sessionOpened port clientId))
      (after e (vboxAuxBeginSession lay port c) m)) h
  rw [(sends_mark _ _ : Sends e lay port _ _ _).s_eq, hs] at hlists
  rw [marks_mark, hmarks, List.append_nil, List.append_assoc, List.singleton_append] at hnames
  have hne : ¬ fail = ok := by decide
  rw [newSession, value_bind, after_bind, hbegin]
  dsimp only
  rw [if_neg hne, value_bind, after_bind]
  refine ⟨hvalue, hnames, cancelled, hconnect.bind ?_⟩
  rw [hbegin]
  dsimp only
  rw [if_neg hne]
  exact (sends_mark _ _).bind hlists

/-- The requests of a run that lists the shares with the given roots. -/
def listing (lay : Layout) (ds : BitVec 16) (clientId : BitVec 32) (roots : List (BitVec 32))
    (cancelled : Bool) : List Request :=
  .reportGuestInfo2 :: .reportGuestInfo :: .getHostVersion :: .connect ::
    .queryMappings clientId shflMaxMappings (mkLinear ds lay.mappings) ::
    (queryNames lay ds clientId roots ++ exchange (.disconnect clientId) cancelled)

variable (lay) in
/-- A session that is opened by a run that is to mount, and is allowed to. -/
theorem openSession_lists (h : Offers e.host clientId roots result) {inv : Invocation}
    {uninstall : BitVec 16} (hmount : uninstall = 0) (hallowed : inv.installationCheck ≠ 1)
    (hturn : m.turn = 0) :
    value e (openSession lay inv uninstall) m =
        .returned ((roots.map result).getLast?.getD vinfSuccess) ∧
      ∃ port, pciPortOf e.host 0 = some port ∧
        marks (after e (openSession lay inv uninstall) m).trace = marks m.trace ++
          .sessionOpened port clientId :: .gotMappings vinfSuccess ::
            (roots.map result).map .gotMapName ∧
        ∃ es cancelled, (after e (openSession lay inv uninstall) m).trace = m.trace ++ es ∧
          Speaks lay e.ds port es (listing lay e.ds clientId roots cancelled) := by
  obtain ⟨port, es, hsome, hinit, hemits, hspeaks⟩ := initVirtual_answered lay h inv.pciPort hturn
  obtain ⟨fs, hfs, -, -, hreports⟩ := initVirtual_spec e lay m inv.pciPort
  have hmarks : marks (after e (vboxAuxInitVirtual lay inv.pciPort) m).trace = marks m.trace := by
    rw [hfs, marks, List.filterMap_append, ← marks, ← marks, (recorded_of_reports hreports).marks,
      List.append_nil]
  obtain ⟨hvalue, hnames, cancelled, gs, hgs, hspeaks'⟩ := newSession_lists e lay port
    (m := after e (vboxAuxInitVirtual lay inv.pciPort) m) h inv.clientId
  rw [hmarks] at hnames
  rw [hemits.s] at hspeaks'
  have hne : ¬ fail = ok := by decide
  rw [openSession_eq lay hmount hallowed, value_bind, after_bind, hinit]
  dsimp only
  rw [if_neg hne]
  refine ⟨hvalue, port, hsome, hnames, es ++ gs, cancelled, ?_, hspeaks.append hspeaks'⟩
  rw [hgs.trace, hemits.trace]
  exact List.append_assoc ..

end Answered

/-- A host that has shares with the given roots, and gives them to a session `clientId`; it answers
the query for a name with the given result. -/
def sharing (clientId : BitVec 32) (roots : List (BitVec 32)) (result : BitVec 32 → BitVec 16) :
    Host where
  onOut := fun _ w s =>
    match Request.decode w.block with
    | some .connect => { s with request := s.request.put32 164 clientId }
    | some (.queryMappings ..) =>
        ⟨s.request.put32 60 (BitVec.ofNat 32 roots.length), fun i => roots.getD i 0⟩
    | some (.queryMapName _ root _ _) =>
        { s with request := s.request.put32 offResult ((result root).signExtend 32) }
    | _ => s
  onDelay := fun _ s => s
  bios := fun _ _ => ⟨0, 0, 0xD020, 0⟩

/-- A request that has just been sent bears a success. -/
theorem VmmDev.Request.Carried.rc_eq {r : Request} {s : Shared} (h : r.Carried s.request) :
    s.rc = vinfSuccess := by
  rw [Shared.rc, h.1.2.2.2]
  rfl

theorem VmmDev.Request.Carried.result_eq {r : Request} {s : Shared} (h : r.Carried s.request)
    (hr : r.toService = true) : s.result = vinfSuccess := by
  rw [Shared.result, (h.2.1 hr).2]
  rfl

section Sharing

variable (clientId : BitVec 32) (roots : List (BitVec 32)) (result : BitVec 32 → BitVec 16)

/-- What the host does with a request. -/
theorem onOut_sharing {turn : ℕ} {w : PortWrite} {s : Shared} {r : Request}
    (h : r.Carried w.block) : (sharing clientId roots result).onOut turn w s =
      match (some r : Option Request) with
      | some .connect => { s with request := s.request.put32 164 clientId }
      | some (.queryMappings ..) =>
          ⟨s.request.put32 60 (BitVec.ofNat 32 roots.length), fun i => roots.getD i 0⟩
      | some (.queryMapName _ root _ _) =>
          { s with request := s.request.put32 offResult ((result root).signExtend 32) }
      | _ => s := by
  rw [← Request.decode_eq_some_iff.2 h]
  rfl

theorem offers_sharing (hroots : roots.length < 2 ^ 32) :
    Offers (sharing clientId roots result) clientId roots result where
  device := by
    have hcheck : (0 : BitVec 16).extractLsb' 8 8 = 0 := by decide
    rw [pciPortOf, if_pos ⟨hcheck, rfl, rfl⟩]
    rfl
  reports := by
    intro r hr turn w s hcarried hrequest
    rw [onOut_sharing clientId roots result hcarried]
    rw [← hrequest] at hcarried
    simp only [List.mem_cons, List.not_mem_nil, or_false] at hr
    rcases hr with rfl | rfl | rfl
    · exact hcarried.rc_eq
    · exact hcarried.rc_eq
    · exact hcarried.rc_eq
  connects := by
    intro turn w s hcarried hrequest
    rw [onOut_sharing clientId roots result hcarried]
    rw [← hrequest] at hcarried
    refine ⟨_, Replies.atOnce ?_, ?_, Mem.get32_put32 ..⟩
    · exact (congrArg _ (Mem.get32_put32_of_disjoint (by decide))).trans hcarried.rc_eq
    · exact (congrArg _ (Mem.get32_put32_of_disjoint (by decide))).trans (hcarried.result_eq rfl)
  lists := by
    intro addr turn w s hcarried hrequest
    rw [onOut_sharing clientId roots result hcarried]
    rw [← hrequest] at hcarried
    refine ⟨_, Replies.atOnce ?_, ?_, ?_, fun i hi => ?_⟩
    · exact (congrArg _ (Mem.get32_put32_of_disjoint (by decide))).trans hcarried.rc_eq
    · exact (congrArg _ (Mem.get32_put32_of_disjoint (by decide))).trans (hcarried.result_eq rfl)
    · rw [Shared.numberOfMappings, Mem.get32_put32, BitVec.toNat_ofNat, Nat.mod_eq_of_lt hroots]
    · exact (List.getElem_eq_getD 0).symm
  names := by
    intro root _ addr turn w s hcarried hrequest
    rw [onOut_sharing clientId roots result hcarried]
    rw [← hrequest] at hcarried
    refine ⟨_, Replies.atOnce ?_, ?_, rfl⟩
    · exact (congrArg _ (Mem.get32_put32_of_disjoint (by decide))).trans hcarried.rc_eq
    · rw [Shared.result, Mem.get32_put32, setWidth_signExtend (by decide)]

end Sharing

/-- No name for the share with root 5. -/
def nameless (root : BitVec 32) : BitVec 16 := if root = 5 then 0xFF97 else vinfSuccess

end Vbsmount

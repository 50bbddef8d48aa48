/-
**What the searches of earlier calls leave behind for later ones.**

`driveIdx` is a static of the redirector.  The searches for the mount of an open file or of a
search block run over the static itself, and a call that is routed by a CDS makes no search and
works with what it finds there.  So the mount such a call works on is decided by the calls before
it.  This module computes the index after any history of calls and says for which histories it is
the right one.

Main definitions:

* `Redir.MountTable`, `Redir.Call`, `Redir.serveAll` — a table of mounts with distinct drives, a
  call with the DOS structures as it finds them, and a history of calls;
* `Redir.Call.search` — the search a call makes, if it makes one;
* `Redir.ServedRightly` — a claimed call with a path works on the mount of its own drive;
* `Redir.Aimed` — the last search of a history was for the drive of the given CDS.

Main results:

* `Redir.serve_eq` — the step: a call moves the index to where its search stops;
* `Redir.serveAll_eq` — the run: only the last search of a history counts;
* `Redir.pathCalls_served_rightly_iff` — **the calls of a run work on the right mounts exactly when
  every call with a path comes behind a search for its drive**.
-/

import Vbsmount.RedirRouting

set_option relaxedAutoImplicit false
set_option autoImplicit false

namespace Vbsmount

open Bytes

namespace Redir

/-! ### Handlers and the statics -/

theorem findFirst_res (s : State) : (findFirst s).res = s.res := by
  unfold findFirst
  split_ifs
  · rfl
  · rfl

/-- No handler touches the statics. -/
theorem dispatch_res {al : BitVec 8} {f : State → State} (hf : dispatch al = some f) (s : State) :
    (f s).res = s.res := by
  have hall : ∀ o ∈ dispatchTable, ∀ f, o = some f → ∀ s : State, (f s).res = s.res := by
    simp only [dispatchTable, List.forall_mem_cons, Option.some.injEq, forall_eq', reduceCtorEq,
      false_imp_iff, implies_true, true_and, List.not_mem_nil, findFirst_res, and_true]
    and_intros
    all_goals exact fun s => rfl
  exact hall _ (List.mem_of_getElem? (Option.join_eq_some_iff.1 hf)) f rfl s

/-! ### Mounts and calls -/

/-- The mounts of a driver: at least one, and no two of the same drive. -/
structure MountTable where
  volInfo : ℕ → VolInfo
  numMounts : ℕ
  pos : 1 ≤ numMounts
  le : numMounts ≤ maxMounts
  inj : ∀ j < numMounts, ∀ k < numMounts,
    (volInfo j).driveNum = (volInfo k).driveNum → j = k

/-- The driver with the index at `i`. -/
def MountTable.resident (t : MountTable) (i : ℕ) : Resident := ⟨t.volInfo, t.numMounts, i⟩

/-- The mount is that of the drive the CDS belongs to. -/
def IsDriveOf (vol : VolInfo) (cds : CDS) : Prop :=
  (cds.currentPath 0).toNat = chA.toNat + vol.driveNum.toNat

/-- A call of the multiplex interrupt: the DOS structures as it finds them, and its registers. -/
structure Call where
  dos : DosState
  r : Regs

/-- One call. -/
def serve (res : Resident) (c : Call) : Resident := (int2fRedirector ⟨res, c.dos, c.r⟩).2.res

/-- A history of calls. -/
def serveAll (res : Resident) (cs : List Call) : Resident := cs.foldl serve res

/-- The search over the mounts that a call makes. -/
def Call.search (c : Call) : Option (VolInfo → Bool) :=
  if c.r.ah ≠ 0x11 then none
  else if 0x06 ≤ c.r.al ∧ c.r.al ≤ 0x0B then some (sftIsOn (c.dos.sft c.r.esdi))
  else if c.r.al = 0x1C then some (sdbIsOn c.dos.sdb)
  else none

/-- Mounts with the same number in a device word are of the same drive. -/
theorem driveNum_eq_of_setWidth {v w : VolInfo}
    (h : v.driveNum.setWidth 16 = w.driveNum.setWidth 16) : v.driveNum = w.driveNum := by
  have hnat := congrArg BitVec.toNat h
  rw [BitVec.toNat_setWidth, BitVec.toNat_setWidth] at hnat
  exact BitVec.eq_of_toNat_eq (by omega)

/-- A search is for one drive. -/
theorem Call.search_drive {c : Call} {p : VolInfo → Bool} (hp : c.search = some p) {v w : VolInfo}
    (hv : p v = true) (hw : p w = true) : v.driveNum = w.driveNum := by
  unfold Call.search at hp
  split_ifs at hp with hah hhandle hnext
  · obtain rfl := Option.some.inj hp
    simp only [sftIsOn, beq_iff_eq] at hv hw
    exact driveNum_eq_of_setWidth (hv.symm.trans hw)
  · obtain rfl := Option.some.inj hp
    simp only [sdbIsOn, Bool.and_eq_true, beq_iff_eq] at hv hw
    rw [← hv.2, hw.2]

/-! ### The step and the run -/

/-- The index after the search of a call, from index `i`. -/
def MountTable.after (t : MountTable) (i : ℕ) (search : Option (VolInfo → Bool)) : ℕ :=
  search.elim i fun p => Search.scan (fun k => p (t.volInfo k)) 0 t.numMounts

theorem dispatch_of_maxFunction_lt {al : BitVec 8} (h : maxFunction < al) : dispatch al = none := by
  have hlen : dispatchTable.length ≤ al.toNat := by
    have hal : maxFunction.toNat < al.toNat := h
    have hmax : maxFunction.toNat + 1 = dispatchTable.length := rfl
    omega
  rw [dispatch, List.getElem?_eq_none hlen]
  rfl

/-- A call for another interrupt user or without a handler is chained untouched; the others are for
`IsCallForUs` to decide. -/
theorem route_cases (s : State) :
    ((s.r.ah ≠ 0x11 ∨ dispatch s.r.al = none) ∧ route s = (none, s)) ∨
      (s.r.ah = 0x11 ∧ ∃ f, dispatch s.r.al = some f ∧
        route s =
          (if (isCallForUs s.r.al s).1 = true then some f else none, (isCallForUs s.r.al s).2)) := by
  by_cases hah : s.r.ah = 0x11
  · cases hf : dispatch s.r.al with
    | none =>
        refine Or.inl ⟨Or.inr rfl, ?_⟩
        rw [route, hf]
        split_ifs
        · rfl
        · rfl
    | some f =>
        have hal : s.r.al ≤ maxFunction := by
          by_contra h
          rw [dispatch_of_maxFunction_lt (by simpa using h)] at hf
          cases hf
        exact Or.inr ⟨hah, f, rfl, route_of_dispatch hah hal hf⟩
  · exact Or.inl ⟨Or.inl hah, by rw [route, if_pos (Or.inl hah)]⟩

/-- What a call leaves in the statics is decided by its routing. -/
theorem int2fRedirector_res (s : State) : (int2fRedirector s).2.res = (route s).2.res := by
  rcases route_cases s with ⟨-, hroute⟩ | ⟨-, f, hf, hroute⟩
  · rw [int2fRedirector, hroute]
  · rw [int2fRedirector, hroute]
    cases (isCallForUs s.r.al s).1 with
    | true => exact dispatch_res hf (success (isCallForUs s.r.al s).2)
    | false => rfl

/-- The functions that make a search have handlers. -/
theorem dispatch_isSome_of_search (al : BitVec 8) :
    (0x06 ≤ al ∧ al ≤ 0x0B) ∨ al = 0x1C → (dispatch al).isSome := by
  revert al
  decide

/-- What the routing of a call with a handler leaves in the statics. -/
theorem isCallForUs_res (t : MountTable) (i : ℕ) (c : Call) (hah : c.r.ah = 0x11)
    (h21 : c.r.al ≠ 0x21) :
    (isCallForUs c.r.al ⟨t.resident i, c.dos, c.r⟩).2.res = t.resident (t.after i c.search) := by
  rw [Call.search, if_neg (not_not.2 hah)]
  by_cases hhandle : 0x06 ≤ c.r.al ∧ c.r.al ≤ 0x0B
  · rw [if_pos hhandle, isCallForUs_handle hhandle]
    rfl
  · rw [if_neg hhandle]
    by_cases hnext : c.r.al = 0x1C
    · rw [if_pos hnext, hnext, isCallForUs_findNext]
      rfl
    · rw [if_neg hnext]
      by_cases h00 : c.r.al = 0x00
      · rw [isCallForUs, if_pos h00]
        rfl
      · exact (isCallForUs_pathBased ⟨h00, h21, hhandle, hnext⟩ _).2

/-- **The step**: a call moves the index to where its search stops. -/
theorem serve_eq (t : MountTable) (i : ℕ) (c : Call) :
    serve (t.resident i) c = t.resident (t.after i c.search) := by
  rw [serve, int2fRedirector_res]
  rcases route_cases ⟨t.resident i, c.dos, c.r⟩ with ⟨hnot, hroute⟩ | ⟨hah, f, hf, hroute⟩
  · have hnone : c.search = none := by
      rw [Call.search]
      split_ifs with hother hhandle hnext
      · rfl
      · have hsome := dispatch_isSome_of_search c.r.al (Or.inl hhandle)
        rw [hnot.resolve_left hother] at hsome
        cases hsome
      · have hsome := dispatch_isSome_of_search c.r.al (Or.inr hnext)
        rw [hnot.resolve_left hother] at hsome
        cases hsome
      · rfl
    rw [hroute, hnone]
    rfl
  · have h21 : c.r.al ≠ 0x21 := by
      intro h
      rw [h] at hf
      cases hf
    rw [hroute]
    exact isCallForUs_res t i c hah h21

theorem serveAll_snoc (res : Resident) (hist : List Call) (c : Call) :
    serveAll res (hist ++ [c]) = serve (serveAll res hist) c := by
  rw [serveAll, List.foldl_concat, ← serveAll]

/-- **The run**: only the last search of a history counts. -/
theorem serveAll_eq (t : MountTable) (i : ℕ) (hist : List Call) :
    serveAll (t.resident i) hist =
      t.resident (t.after i (hist.filterMap Call.search).getLast?) := by
  induction hist using List.reverseRecOn with
  | nil => rfl
  | append_singleton hist c ih =>
      rw [serveAll_snoc, ih, serve_eq, List.filterMap_append]
      cases hc : c.search with
      | none => simp [hc, MountTable.after]
      | some p => simp [hc, MountTable.after]

/-! ### Calls with a path -/

/-- A call with a path that has a handler and is accepted through `cds`. -/
def PathCall (c : Call) (cds : CDS) : Prop :=
  c.r.ah = 0x11 ∧ (dispatch c.r.al).isSome ∧ PathBased c.r.al ∧
    acceptedCds c.r.al c.dos c.r = some cds

/-- The call writes the drive number and the label of the mount. -/
def ReportsLabel (s : State) (vol : VolInfo) : Prop :=
  (int2fRedirector s).2.dos.sdb.driveNumber = vol.driveNum ||| sdbDriveFlag ∧
    (int2fRedirector s).2.dos.fdb.fileName = cpUcs2ToLocal s.dos.fdb.fileName vol.ucs2label 11

/-- A call is served rightly: if it is claimed through a CDS, its handler starts with the index at
the mount of that drive, and a search for the volume label reports that mount. -/
def ServedRightly (s : State) : Prop :=
  ∀ cds, (int2fRedirector s).1 = .claimed → PathBased s.r.al →
    acceptedCds s.r.al s.dos s.r = some cds →
      ((route s).2.res.driveIdx < s.res.numMounts ∧
        IsDriveOf (s.res.volInfo (route s).2.res.driveIdx) cds) ∧
      (s.r.al = 0x1B → s.dos.sda.attrMask = aVolid →
        ∃ k < s.res.numMounts, IsDriveOf (s.res.volInfo k) cds ∧ ReportsLabel s (s.res.volInfo k))

/-- The last search of the history was for the drive of the CDS; before any search, the first mount
is that drive. -/
def Aimed (t : MountTable) (hist : List Call) (cds : CDS) : Prop :=
  match (hist.filterMap Call.search).getLast? with
  | none => IsDriveOf (t.volInfo 0) cds
  | some p => ∃ k < t.numMounts, IsDriveOf (t.volInfo k) cds ∧ p (t.volInfo k) = true

/-- The index after a history is that of the drive exactly when the history was aimed at it. -/
theorem after_isDriveOf_iff (t : MountTable) (hist : List Call) (cds : CDS) :
    (t.after 0 (hist.filterMap Call.search).getLast? < t.numMounts ∧
      IsDriveOf (t.volInfo (t.after 0 (hist.filterMap Call.search).getLast?)) cds) ↔
    Aimed t hist cds := by
  unfold Aimed
  cases hlast : (hist.filterMap Call.search).getLast? with
  | none =>
      constructor
      · intro h
        exact h.2
      · intro h
        exact ⟨t.pos, h⟩
  | some p =>
      obtain ⟨c, -, hc⟩ := List.mem_filterMap.1 (List.mem_of_getLast? hlast)
      constructor
      · rintro ⟨hlt, hdrive⟩
        exact ⟨_, hlt, hdrive, Search.scan_found (p := fun k => p (t.volInfo k)) hlt⟩
      · rintro ⟨k, hk, hdrive, hpk⟩
        have hscan : t.after 0 (some p) = k :=
          Search.scan_eq_of_unique (Nat.zero_le k) hk hpk fun j _ hj hpj =>
            t.inj j hj k hk (Call.search_drive hc hpj hpk)
        rw [hscan]
        exact ⟨hk, hdrive⟩

/-- A call with a path that is accepted runs its handler, and the index is as it was before. -/
theorem route_pathCall {c : Call} {cds : CDS} (hc : PathCall c cds) (t : MountTable) (i : ℕ) :
    ∃ f fcbName1, dispatch c.r.al = some f ∧ route ⟨t.resident i, c.dos, c.r⟩ =
      (some f, ⟨t.resident i, { c.dos with fcbName1 := fcbName1 }, c.r⟩) := by
  obtain ⟨hah, hsome, hpath, hcds⟩ := hc
  rcases route_cases ⟨t.resident i, c.dos, c.r⟩ with ⟨hnot, -⟩ | ⟨-, f, hf, hroute⟩
  · rw [hnot.resolve_left (not_not.2 hah)] at hsome
    cases hsome
  · obtain ⟨hr, -, -, fcbName1, hdos⟩ :=
      isCallForUs_frame (s := ⟨t.resident i, c.dos, c.r⟩) c.r.al
    obtain ⟨haccept, hres⟩ := isCallForUs_pathBased hpath ⟨t.resident i, c.dos, c.r⟩
    have htrue : (isCallForUs c.r.al ⟨t.resident i, c.dos, c.r⟩).1 = true := by
      rw [haccept, hcds]
      rfl
    refine ⟨f, fcbName1, hf, ?_⟩
    rw [hroute, if_pos htrue]
    generalize (isCallForUs c.r.al ⟨t.resident i, c.dos, c.r⟩).2 = s' at hr hdos hres
    obtain ⟨res', dos', r'⟩ := s'
    cases hr
    cases hdos
    cases hres
    rfl

/-- One call is served rightly exactly when the index is that of its drive. -/
theorem servedRightly_iff (t : MountTable) (i : ℕ) (c : Call) :
    ServedRightly ⟨t.resident i, c.dos, c.r⟩ ↔
      ∀ cds, PathCall c cds → i < t.numMounts ∧ IsDriveOf (t.volInfo i) cds := by
  constructor
  · intro h cds hc
    obtain ⟨f, fcbName1, -, hroute⟩ := route_pathCall hc t i
    have hclaimed : (int2fRedirector ⟨t.resident i, c.dos, c.r⟩).1 = .claimed := by
      rw [int2fRedirector, hroute]
    have hidx := (h cds hclaimed hc.2.2.1 hc.2.2.2).1
    rw [hroute] at hidx
    exact hidx
  · intro h cds hclaimed hpath hcds
    have hc : PathCall c cds := by
      rcases route_cases ⟨t.resident i, c.dos, c.r⟩ with ⟨-, hroute⟩ | ⟨hah, f, hf, -⟩
      · rw [int2fRedirector, hroute] at hclaimed
        cases hclaimed
      · exact ⟨hah, Option.isSome_iff_exists.2 ⟨f, hf⟩, hpath, hcds⟩
    obtain ⟨hi, hdrive⟩ := h cds hc
    obtain ⟨f, fcbName1, hf, hroute⟩ := route_pathCall hc t i
    constructor
    · rw [hroute]
      exact ⟨hi, hdrive⟩
    · intro hal hattr
      replace hal : c.r.al = 0x1B := hal
      rw [hal] at hf
      obtain rfl : findFirst = f := Option.some.inj hf
      refine ⟨i, hi, hdrive, ?_⟩
      rw [ReportsLabel, int2fRedirector, hroute]
      exact findFirst_volid hattr

/-- **The calls of a run are served rightly exactly when every call with a path comes behind a
search for its own drive**, or behind no search if that drive is the first mount. -/
theorem pathCalls_served_rightly_iff (t : MountTable) (calls : List Call) :
    (∀ hist c rest, calls = hist ++ c :: rest →
      ServedRightly ⟨serveAll (t.resident 0) hist, c.dos, c.r⟩) ↔
    ∀ hist c rest cds, calls = hist ++ c :: rest → PathCall c cds → Aimed t hist cds := by
  constructor
  · intro h hist c rest cds hcalls hc
    have hserved := h hist c rest hcalls
    rw [serveAll_eq, servedRightly_iff] at hserved
    exact (after_isDriveOf_iff t hist cds).1 (hserved cds hc)
  · intro h hist c rest hcalls
    rw [serveAll_eq, servedRightly_iff]
    intro cds hc
    exact (after_isDriveOf_iff t hist cds).2 (h hist c rest cds hcalls hc)

/-! ### A file of another redirector is closed -/

/-- The mounts are exactly the drives with the driver's mark. -/
def MountsAreOurs (t : MountTable) (dos : DosState) : Prop :=
  (∀ p, (dos.cds p).Ours → ∃ k < t.numMounts, IsDriveOf (t.volInfo k) (dos.cds p)) ∧
    ∀ k < t.numMounts, ∃ p, (dos.cds p).Ours ∧ IsDriveOf (t.volInfo k) (dos.cds p)

/-- One mount, drive `E:`. -/
def sampleTable : MountTable where
  volInfo := sampleVol
  numMounts := 1
  pos := le_rfl
  le := by decide
  inj := fun j hj k hk _ => by omega

/-- A file on drive number 5 is closed. -/
def closeElsewhere : Call := ⟨sampleDos 2 0 0 5, sampleRegs 0x1106 1⟩

/-- The volume label of `E:` is asked for. -/
def labelOfE : Call := ⟨sampleDos 1 aVolid 0 0, sampleRegs 0x111B 0⟩

theorem labelOfE_after_closeElsewhere :
    (∀ c ∈ [closeElsewhere, labelOfE], MountsAreOurs sampleTable c.dos) ∧
    (int2fRedirector ⟨serveAll (sampleTable.resident 0) [closeElsewhere],
      labelOfE.dos, labelOfE.r⟩).1 = .claimed ∧
    (serveAll (sampleTable.resident 0) [closeElsewhere]).driveIdx = sampleTable.numMounts ∧
    ¬ ∀ hist c rest, [closeElsewhere, labelOfE] = hist ++ c :: rest →
      ServedRightly ⟨serveAll (sampleTable.resident 0) hist, c.dos, c.r⟩ := by
  have hclaimed : (int2fRedirector ⟨serveAll (sampleTable.resident 0) [closeElsewhere],
      labelOfE.dos, labelOfE.r⟩).1 = .claimed := by decide
  have hmounts : ∀ attrMask devInfoWord currentCDS,
      MountsAreOurs sampleTable (sampleDos currentCDS attrMask 0 devInfoWord) := by
    intro attrMask devInfoWord currentCDS
    constructor
    · intro p hp
      refine ⟨0, by decide, ?_⟩
      simp only [sampleDos] at hp ⊢
      split_ifs at hp ⊢
      · rfl
      · cases hp
    · intro k hk
      obtain rfl : k = 0 := Nat.lt_one_iff.1 hk
      exact ⟨1, rfl, rfl⟩
  refine ⟨?_, hclaimed, by decide, ?_⟩
  · simp only [List.forall_mem_cons, List.not_mem_nil, false_imp_iff, implies_true, and_true]
    exact ⟨hmounts 0 5 2, hmounts aVolid 0 1⟩
  · intro h
    have hidx := (h [closeElsewhere] labelOfE [] rfl (labelOfE.dos.cds 1) hclaimed (by decide)
      rfl).1.1
    exact absurd hidx (by decide)

end Redir

end Vbsmount

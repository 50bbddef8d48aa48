/-
**Which calls the redirector takes, and for which drive.**

A call is routed in one of three ways: by the drive number in an open file or in a search block,
which a search over the mount table turns into an index, or by a current directory structure that
carries the driver's mark.  This module gives one rule for each way and settles two questions about
single calls: whether a request for the free space of a drive goes to the owner of that drive, and
whether the search block that `FindFirst` leaves is one that the routing of `FindNext` recognises.

Main definitions:

* `Redir.PathBased` — the functions that are routed by a CDS;
* `Redir.acceptedCds` — the CDS through which such a call is accepted;
* `Redir.RoutedByDriveAsked` — what routing a request for free space by the drive asked about means;
* `Redir.SearchContinues`, `Redir.FindNextResumes` — a later `FindNext` with the same search block,
  and its being recognised as the continuation of the search.

Main results:

* `Redir.isCallForUs_handle`, `Redir.isCallForUs_findNext`, `Redir.isCallForUs_pathBased` — the
  three ways;
* `Redir.getDiskSpace_routed_iff` — **free space is asked of the right drive exactly when that drive
  is ours or the current one is not**;
* `Redir.findNext_never_resumes` — **a search for a volume label is never resumed**: the flag that
  `FindFirst` writes is not the one that the routing of `FindNext` asks for.
-/

import Vbsmount.Redir

set_option relaxedAutoImplicit false
set_option autoImplicit false

namespace Vbsmount

open Bytes

namespace Redir

/-! ### Routing by a search -/

theorem isCallForUs_handle {function : BitVec 8} (hh : 0x06 ≤ function ∧ function ≤ 0x0B)
    (s : State) :
    isCallForUs function s = driveSearch (sftIsOn (s.dos.sft s.r.esdi)) s := by
  have h00 : function ≠ 0x00 := by
    rintro rfl
    exact absurd hh.1 (by decide)
  rw [isCallForUs, if_neg h00, if_pos (Or.inr hh)]

theorem isCallForUs_findNext (s : State) :
    isCallForUs 0x1C s = driveSearch (sdbIsOn s.dos.sdb) s := by
  rw [isCallForUs, if_neg (by decide), if_neg (by decide), if_pos rfl]

/-! ### Routing by a CDS -/

/-- The functions that `IsCallForUs` routes by a CDS. -/
def PathBased (function : BitVec 8) : Prop :=
  function ≠ 0x00 ∧ function ≠ 0x21 ∧ ¬ (0x06 ≤ function ∧ function ≤ 0x0B) ∧ function ≠ 0x1C

instance (function : BitVec 8) : Decidable (PathBased function) :=
  inferInstanceAs (Decidable (_ ∧ _ ∧ _ ∧ _))

/-- The CDS through which a call with a path is accepted: for `GetDiskSpace` the one in `es:di`
comes first, the current one stands in for it. -/
def acceptedCds (function : BitVec 8) (dos : DosState) (r : Regs) : Option CDS :=
  if function = 0x0C ∧ (dos.cds r.esdi).Ours then some (dos.cds r.esdi)
  else if (dos.cds dos.sda.currentCDS).Ours then some (dos.cds dos.sda.currentCDS)
  else none

/-- A call with a path passes by the searches. -/
theorem isCallForUs_skip {function : BitVec 8} (hp : PathBased function) (s : State) :
    isCallForUs function s =
      if function = 0x0C ∧ (s.dos.cds s.r.esdi).Ours then (true, s)
      else if (s.dos.cds s.dos.sda.currentCDS).Ours then
        (true, { s with dos := { s.dos with
          fcbName1 := fillFcbName s.dos.fcbName1 s.dos.fileName1 } })
      else (false, s) := by
  obtain ⟨h00, h21, hhandle, h1C⟩ := hp
  have hsearch : ¬ (function = 0x21 ∨ (0x06 ≤ function ∧ function ≤ 0x0B)) := by
    rintro (h | h)
    · exact h21 h
    · exact hhandle h
  rw [isCallForUs, if_neg h00, if_neg hsearch, if_neg h1C]

/-- **Routing by a CDS**: the call is taken when some CDS accepts it, and the index stays where the
last search has left it. -/
theorem isCallForUs_pathBased {function : BitVec 8} (hp : PathBased function) (s : State) :
    (isCallForUs function s).1 = (acceptedCds function s.dos s.r).isSome ∧
      (isCallForUs function s).2.res = s.res := by
  rw [isCallForUs_skip hp, acceptedCds]
  split_ifs
  · exact ⟨rfl, rfl⟩
  · exact ⟨rfl, rfl⟩
  · exact ⟨rfl, rfl⟩

/-- A call that no CDS accepts leaves everything as it is. -/
theorem isCallForUs_of_not_accepted {function : BitVec 8} (hp : PathBased function) {s : State}
    (h : acceptedCds function s.dos s.r = none) : isCallForUs function s = (false, s) := by
  rw [acceptedCds] at h
  rw [isCallForUs_skip hp]
  split_ifs at h ⊢
  rfl

/-! ### `GetDiskSpace` -/

/-- A request for free space is routed by the drive it asks about: it is claimed exactly when the
CDS in `es:di` is ours, and otherwise chained with nothing touched. -/
def RoutedByDriveAsked (s : State) : Prop :=
  ((int2fRedirector s).1 = .claimed ↔ (s.dos.cds s.r.esdi).Ours) ∧
    (¬ (s.dos.cds s.r.esdi).Ours → (int2fRedirector s).1 = .chained ∧
      (int2fRedirector s).2.r = s.r ∧ (int2fRedirector s).2.dos.fcbName1 = s.dos.fcbName1)

/-- A request for free space is claimed exactly when one of the two structures is ours. -/
theorem int2fRedirector_getDiskSpace {s : State} (hax : s.r.ax = 0x110C) :
    ((int2fRedirector s).1 = .claimed ↔
      (s.dos.cds s.r.esdi).Ours ∨ (s.dos.cds s.dos.sda.currentCDS).Ours) ∧
    (acceptedCds 0x0C s.dos s.r = none → int2fRedirector s = (.chained, s)) := by
  have hah : s.r.ah = 0x11 := by rw [Regs.ah, hax]; rfl
  have hal : s.r.al = 0x0C := by rw [Regs.al, hax]; rfl
  have hp : PathBased 0x0C := by decide
  have hroute : route s = (if (isCallForUs 0x0C s).1 = true then some getDiskSpace else none,
      (isCallForUs 0x0C s).2) := by
    rw [route_of_dispatch (f := getDiskSpace) hah (by rw [hal]; decide) (by rw [hal]; rfl), hal]
  have hsome : (acceptedCds 0x0C s.dos s.r).isSome = true ↔
      (s.dos.cds s.r.esdi).Ours ∨ (s.dos.cds s.dos.sda.currentCDS).Ours := by
    by_cases h₁ : (s.dos.cds s.r.esdi).Ours
    · simp [acceptedCds, h₁]
    · by_cases h₂ : (s.dos.cds s.dos.sda.currentCDS).Ours
      · simp [acceptedCds, h₁, h₂]
      · simp [acceptedCds, h₁, h₂]
  constructor
  · rw [← hsome, ← (isCallForUs_pathBased hp s).1, int2fRedirector, hroute]
    cases (isCallForUs 0x0C s).1 with
    | true => simp
    | false => simp
  · intro hnone
    rw [int2fRedirector, hroute, isCallForUs_of_not_accepted hp hnone]
    rfl

/-- **Free space is asked of the right drive exactly when that drive is ours or the current drive is
not**: the branch for `es:di` falls through to the test of the current drive. -/
theorem getDiskSpace_routed_iff {s : State} (hax : s.r.ax = 0x110C) :
    RoutedByDriveAsked s ↔
      (s.dos.cds s.r.esdi).Ours ∨ ¬ (s.dos.cds s.dos.sda.currentCDS).Ours := by
  obtain ⟨hclaimed, hchained⟩ := int2fRedirector_getDiskSpace hax
  constructor
  · rintro ⟨hiff, -⟩
    by_contra h
    push Not at h
    exact h.1 (hiff.1 (hclaimed.2 (Or.inr h.2)))
  · intro h
    refine ⟨?_, fun hasked => ?_⟩
    · rw [hclaimed]
      constructor
      · rintro (hasked | hcur)
        · exact hasked
        · exact h.resolve_right (not_not.2 hcur)
      · exact Or.inl
    · have hcur : ¬ (s.dos.cds s.dos.sda.currentCDS).Ours := h.resolve_left hasked
      have hnone : acceptedCds 0x0C s.dos s.r = none := by
        simp [acceptedCds, hasked, hcur]
      rw [hchained hnone]
      exact ⟨rfl, rfl, rfl⟩

/-! ### A small machine -/

/-- A CDS with the given drive letter and mark. -/
def sampleCds (letter : BitVec 8) (parameter : BitVec 16) : CDS where
  currentPath := fun _ => letter
  flags := network ||| physical
  redirIFSRecordPtr := 0
  parameter := parameter

/-- DOS structures: drive `E:`, ours, at far pointer 1, and a drive of another redirector
everywhere else. -/
def sampleDos (currentCDS : FarPtr) (attrMask driveNumber : BitVec 8) (devInfoWord : BitVec 16) :
    DosState where
  sft := fun _ => ⟨devInfoWord⟩
  cds := fun p => if p = 1 then sampleCds 0x45 vbsmountMagic else sampleCds 0x46 0
  sda := ⟨attrMask, 0, 0, 0, 0, currentCDS⟩
  sdb := ⟨driveNumber, fun _ => chBlank, 0, 0, 0, 0⟩
  fdb := ⟨fun _ => chBlank, 0, 0, 0⟩
  fcbName1 := fun _ => chBlank
  fileName1 := [0x45, 0x3A, chBackslash, 0x41, chNul]
  dosTime := 0
  stackParam := 0

/-- Registers of a call with the given function in `AX` and `es:di` at the given offset. -/
def sampleRegs (ax di : BitVec 16) : Regs := ⟨ax, 0, 0, 0, 0, di, 0, 0, 0, 0⟩

/-- One mount, drive `E:`. -/
def sampleVol (k : ℕ) : VolInfo := ⟨if k = 0 then 4 else 0, fun _ => 0x41⟩

/-- Free space of a drive of another redirector, asked for while the current drive is ours. -/
def crossDriveRequest : State :=
  ⟨⟨sampleVol, 1, 0⟩, sampleDos 1 0 0 0, sampleRegs 0x110C 2⟩

theorem getDiskSpace_routed_own_drive : RoutedByDriveAsked
    ⟨⟨sampleVol, 1, 0⟩, sampleDos 2 0 0 0, sampleRegs 0x110C 1⟩ :=
  (getDiskSpace_routed_iff rfl).2 (Or.inl (by decide))

theorem crossDriveRequest_claimed : crossDriveRequest.r.ax = 0x110C ∧
    ¬ (crossDriveRequest.dos.cds crossDriveRequest.r.esdi).Ours ∧
    (int2fRedirector crossDriveRequest).1 = .claimed ∧ ¬ RoutedByDriveAsked crossDriveRequest := by
  have hasked : ¬ (crossDriveRequest.dos.cds crossDriveRequest.r.esdi).Ours := by decide
  have hclaimed : (int2fRedirector crossDriveRequest).1 = .claimed :=
    (int2fRedirector_getDiskSpace rfl).1.2 (Or.inr (by decide))
  exact ⟨rfl, hasked, hclaimed, fun h => hasked (h.1.1 hclaimed)⟩

/-! ### `FindFirst` and `FindNext` -/

/-- What a search for the volume label reports. -/
theorem findFirst_volid {s : State} (hattr : s.dos.sda.attrMask = aVolid) :
    (findFirst s).dos.sdb.driveNumber =
        (s.res.volInfo s.res.driveIdx).driveNum ||| sdbDriveFlag ∧
      (findFirst s).dos.fdb.fileName =
        cpUcs2ToLocal s.dos.fdb.fileName (s.res.volInfo s.res.driveIdx).ucs2label 11 := by
  rw [findFirst, if_pos hattr]
  exact ⟨rfl, rfl⟩

/-- A later state that presents the search block `FindFirst` has left, with the same mounts. -/
structure SearchContinues (s t : State) : Prop where
  sdb : t.dos.sdb = (findFirst s).dos.sdb
  volInfo : t.res.volInfo = s.res.volInfo
  numMounts : t.res.numMounts = s.res.numMounts

/-- `FindNext` in state `t` is taken as the continuation of the search that began in `s`. -/
def FindNextResumes (s t : State) : Prop :=
  (isCallForUs 0x1C t).1 = true ∧ (isCallForUs 0x1C t).2.res.driveIdx = s.res.driveIdx

/-- The drive byte of the search block never passes the test for the mount it was written for. -/
theorem sdbIsOn_sdbDriveFlag (d : BitVec 8) :
    ((d ||| sdbDriveFlag) &&& 0x40 != 0 && (d ||| sdbDriveFlag) &&& 0x1F == d) = false := by
  revert d
  decide

/-- **A search for a volume label is never resumed**, whatever the mounts and whatever happens in
between. -/
theorem findNext_never_resumes {s t : State} (hattr : s.dos.sda.attrMask = aVolid)
    (hc : SearchContinues s t) : ¬ FindNextResumes s t := by
  rintro ⟨haccept, hidx⟩
  rw [isCallForUs_findNext] at haccept hidx
  -- an accepted search stops at a mount that passes the test
  have hlt : (driveSearch (sdbIsOn t.dos.sdb) t).2.res.driveIdx < t.res.numMounts := by
    simpa [driveSearch] using haccept
  have hfound : sdbIsOn t.dos.sdb
      (t.res.volInfo (driveSearch (sdbIsOn t.dos.sdb) t).2.res.driveIdx) = true :=
    Search.scan_found hlt
  have hbyte : t.dos.sdb.driveNumber =
      (s.res.volInfo s.res.driveIdx).driveNum ||| sdbDriveFlag := by
    rw [hc.sdb, (findFirst_volid hattr).1]
  rw [hidx, hc.volInfo, sdbIsOn, hbyte, sdbIsOn_sdbDriveFlag] at hfound
  exact Bool.false_ne_true hfound

/-- A search for the volume label of the only mount. -/
def labelSearch : State :=
  ⟨⟨sampleVol, 1, 0⟩, sampleDos 1 aVolid 0 0, sampleRegs 0x111B 0⟩

/-- `FindNext` right behind it. -/
def labelSearchNext : State := { findFirst labelSearch with r := sampleRegs 0x111C 0 }

theorem labelSearch_not_resumed : ¬ FindNextResumes labelSearch labelSearchNext :=
  findNext_never_resumes rfl ⟨rfl, rfl, rfl⟩

theorem labelSearchNext_rejected :
    (labelSearch.res.driveIdx < labelSearch.res.numMounts ∧
      (∀ k < labelSearch.res.numMounts, ((labelSearch.res.volInfo k).driveNum).toNat < 32)) ∧
    SearchContinues labelSearch labelSearchNext ∧ (isCallForUs 0x1C labelSearchNext).1 = false ∧
    ¬ FindNextResumes labelSearch labelSearchNext := by
  have hrejected : (isCallForUs 0x1C labelSearchNext).1 = false := by decide
  refine ⟨⟨by decide, by decide⟩, ⟨rfl, rfl, rfl⟩, hrejected, ?_⟩
  rintro ⟨haccept, -⟩
  rw [hrejected] at haccept
  exact Bool.false_ne_true haccept

end Redir

end Vbsmount

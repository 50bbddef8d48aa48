/-
**The searches of the redirector, and what they do not depend on.**

The functions on open files and `FindNext` are routed by a search over the mount table that runs
over the static `driveIdx` itself.  The search begins by setting the index, so a stale index from an
earlier call has no influence on it; and since no two mounts are of the same drive, it can stop at
one place only.

Main definitions:

* `Redir.Resident.Distinct` — no two mounts are of the same drive;
* `Redir.OfSft`, `Redir.OfSdb` — the mount an open file or a search block belongs to;
* `Redir.RoutedExactly` — a call is taken exactly when some mount is the wanted one, and the index
  then is that of this mount;
* `Redir.SameMounts` — two states of the driver with the same table.

Main results:

* `Redir.driveSearch_routedExactly` — the search is exact;
* `Redir.serveAll_sameMounts` — no call touches the table, so neither does any history;
* `Redir.isCallForUs_search_exact` — **routing by a search is exact, whatever the index was before
  and whatever calls came before**.
-/

import Vbsmount.RedirHistory

set_option relaxedAutoImplicit false
set_option autoImplicit false

namespace Vbsmount

open Bytes

namespace Redir

/-! ### Exact routing -/

/-- No two mounts are of the same drive. -/
def Resident.Distinct (res : Resident) : Prop :=
  ∀ j < res.numMounts, ∀ k < res.numMounts,
    (res.volInfo j).driveNum = (res.volInfo k).driveNum → j = k

/-- The mount of an open file: the low six bits of the device word are the drive. -/
def OfSft (sft : SFT) (vol : VolInfo) : Prop :=
  vol.driveNum.setWidth 16 = sft.devInfoWord &&& 0x3F

/-- The mount of a search block: bit 40h is set, and the low five bits are the drive. -/
def OfSdb (sdb : SDB) (vol : VolInfo) : Prop :=
  sdb.driveNumber &&& 0x40 ≠ 0 ∧ vol.driveNum = sdb.driveNumber &&& 0x1F

theorem sftIsOn_iff {sft : SFT} {vol : VolInfo} : sftIsOn sft vol = true ↔ OfSft sft vol := by
  rw [sftIsOn, beq_iff_eq]
  exact eq_comm

theorem sdbIsOn_iff {sdb : SDB} {vol : VolInfo} : sdbIsOn sdb vol = true ↔ OfSdb sdb vol := by
  simp only [sdbIsOn, Bool.and_eq_true, bne_iff_ne, beq_iff_eq]
  exact and_congr_right' eq_comm

/-- A call of the function is taken exactly when some mount is the wanted one, and the index then is
that of the only such mount. -/
structure RoutedExactly (function : BitVec 8) (Wanted : VolInfo → Prop) (s : State) : Prop where
  answer : (isCallForUs function s).1 = true ↔
    ∃ k < s.res.numMounts, Wanted (s.res.volInfo k)
  index : (isCallForUs function s).1 = true →
    (isCallForUs function s).2.res.driveIdx < s.res.numMounts ∧
      Wanted (s.res.volInfo (isCallForUs function s).2.res.driveIdx) ∧
      ∀ k < s.res.numMounts, Wanted (s.res.volInfo k) →
        k = (isCallForUs function s).2.res.driveIdx

/-- **A search is exact**, if it is for one drive only. -/
theorem driveSearch_routedExactly {function : BitVec 8} {p : VolInfo → Bool}
    {Wanted : VolInfo → Prop} {s : State} (hsearch : isCallForUs function s = driveSearch p s)
    (hp : ∀ vol, p vol = true ↔ Wanted vol)
    (hdrive : ∀ v w, Wanted v → Wanted w → v.driveNum = w.driveNum) (hs : s.res.Distinct) :
    RoutedExactly function Wanted s := by
  have hanswer : (driveSearch p s).1 = true ↔ ∃ k < s.res.numMounts, Wanted (s.res.volInfo k) := by
    simp only [driveSearch, decide_eq_true_eq, Search.scan_lt_iff, Nat.zero_le, true_and, hp]
  constructor
  · rw [hsearch]
    exact hanswer
  · rw [hsearch]
    intro htaken
    obtain ⟨k, hk, hwanted⟩ := hanswer.1 htaken
    have honly : ∀ j < s.res.numMounts, Wanted (s.res.volInfo j) → j = k := fun j hj hw =>
      hs j hj k hk (hdrive _ _ hw hwanted)
    have hidx : (driveSearch p s).2.res.driveIdx = k :=
      Search.scan_eq_of_unique (Nat.zero_le k) hk ((hp _).2 hwanted) fun j _ hj hpj =>
        honly j hj ((hp _).1 hpj)
    rw [hidx]
    exact ⟨hk, hwanted, honly⟩

theorem OfSft.driveNum_eq {sft : SFT} {v w : VolInfo} (hv : OfSft sft v) (hw : OfSft sft w) :
    v.driveNum = w.driveNum :=
  driveNum_eq_of_setWidth (Eq.trans hv (Eq.symm hw))

/-- An open file is routed to its mount. -/
theorem isCallForUs_handle_exact {function : BitVec 8} {s : State}
    (hh : 0x06 ≤ function ∧ function ≤ 0x0B) (hs : s.res.Distinct) :
    RoutedExactly function (OfSft (s.dos.sft s.r.esdi)) s :=
  driveSearch_routedExactly (isCallForUs_handle hh s) (fun _ => sftIsOn_iff)
    (fun _ _ => OfSft.driveNum_eq) hs

/-- A search block is routed to its mount. -/
theorem isCallForUs_findNext_exact {s : State} (hs : s.res.Distinct) :
    RoutedExactly 0x1C (OfSdb s.dos.sdb) s :=
  driveSearch_routedExactly (isCallForUs_findNext s) (fun _ => sdbIsOn_iff)
    (fun _ _ hv hw => hv.2.trans hw.2.symm) hs

/-! ### Independence of what came before -/

/-- The driver has the same mounts, and perhaps another index. -/
structure SameMounts (res res' : Resident) : Prop where
  volInfo : res.volInfo = res'.volInfo
  numMounts : res.numMounts = res'.numMounts

theorem SameMounts.trans {res res' res'' : Resident} (h : SameMounts res res')
    (h' : SameMounts res' res'') : SameMounts res res'' :=
  ⟨h.volInfo.trans h'.volInfo, h.numMounts.trans h'.numMounts⟩

theorem SameMounts.symm {res res' : Resident} (h : SameMounts res res') : SameMounts res' res :=
  ⟨h.volInfo.symm, h.numMounts.symm⟩

/-- **The step**: no call touches the table. -/
theorem serve_sameMounts (res : Resident) (c : Call) : SameMounts (serve res c) res := by
  rw [serve, int2fRedirector_res]
  rcases route_cases ⟨res, c.dos, c.r⟩ with ⟨-, hroute⟩ | ⟨-, f, -, hroute⟩
  · rw [hroute]
    exact ⟨rfl, rfl⟩
  · rw [hroute]
    obtain ⟨-, hvolInfo, hnumMounts, -⟩ := isCallForUs_frame (s := ⟨res, c.dos, c.r⟩) c.r.al
    exact ⟨hvolInfo, hnumMounts⟩

/-- **The run**: nor does any history. -/
theorem serveAll_sameMounts (res : Resident) (hist : List Call) :
    SameMounts (serveAll res hist) res := by
  induction hist using List.reverseRecOn with
  | nil => exact ⟨rfl, rfl⟩
  | append_singleton hist c ih =>
      rw [serveAll_snoc]
      exact (serve_sameMounts _ c).trans ih

/-- A search is decided by the table and by what is searched for. -/
theorem driveSearch_congr {p : VolInfo → Bool} {s s' : State} (h : SameMounts s.res s'.res) :
    (driveSearch p s).1 = (driveSearch p s').1 ∧
      (driveSearch p s).2.res.driveIdx = (driveSearch p s').2.res.driveIdx := by
  simp [driveSearch, h.volInfo, h.numMounts]

/-- The functions that are routed by a search. -/
def SearchBased (function : BitVec 8) : Prop :=
  (0x06 ≤ function ∧ function ≤ 0x0B) ∨ function = 0x1C

/-- The same call gets the same answer and the same index, whatever came before it. -/
theorem isCallForUs_congr {function : BitVec 8} (hf : SearchBased function) {res res' : Resident}
    (h : SameMounts res res') (c : Call) :
    (isCallForUs function ⟨res, c.dos, c.r⟩).1 = (isCallForUs function ⟨res', c.dos, c.r⟩).1 ∧
      (isCallForUs function ⟨res, c.dos, c.r⟩).2.res.driveIdx =
        (isCallForUs function ⟨res', c.dos, c.r⟩).2.res.driveIdx := by
  rcases hf with hh | rfl
  · rw [isCallForUs_handle hh, isCallForUs_handle hh]
    exact driveSearch_congr h
  · rw [isCallForUs_findNext, isCallForUs_findNext]
    exact driveSearch_congr h

/-- **Routing by a search is exact, and independent of history**: for every index left by an earlier
call, an open file and a search block are routed to the only mount they belong to, and two runs that
differ in earlier calls only go on with the same answer and the same index. -/
theorem isCallForUs_search_exact {res : Resident} (hdistinct : res.Distinct) (c : Call) :
    (∀ function, 0x06 ≤ function ∧ function ≤ 0x0B →
      RoutedExactly function (OfSft (c.dos.sft c.r.esdi)) ⟨res, c.dos, c.r⟩) ∧
    RoutedExactly 0x1C (OfSdb c.dos.sdb) ⟨res, c.dos, c.r⟩ ∧
    ∀ function, SearchBased function → ∀ res₁ res₂, SameMounts res₁ res → SameMounts res₂ res →
      ∀ hist₁ hist₂ : List Call,
        (isCallForUs function ⟨serveAll res₁ hist₁, c.dos, c.r⟩).1 =
          (isCallForUs function ⟨serveAll res₂ hist₂, c.dos, c.r⟩).1 ∧
        (isCallForUs function ⟨serveAll res₁ hist₁, c.dos, c.r⟩).2.res.driveIdx =
          (isCallForUs function ⟨serveAll res₂ hist₂, c.dos, c.r⟩).2.res.driveIdx := by
  refine ⟨fun function hh => isCallForUs_handle_exact (s := ⟨res, c.dos, c.r⟩) hh hdistinct,
    isCallForUs_findNext_exact (s := ⟨res, c.dos, c.r⟩) hdistinct, ?_⟩
  intro function hf res₁ res₂ h₁ h₂ hist₁ hist₂
  have hsame₁ := (serveAll_sameMounts res₁ hist₁).trans h₁
  have hsame₂ := (serveAll_sameMounts res₂ hist₂).trans h₂
  exact isCallForUs_congr hf (hsame₁.trans hsame₂.symm) c

/-- Three mounts, drives `E:`, `H:` and `Z:`. -/
def threeVols (k : ℕ) : VolInfo := ⟨[4, 7, 25].getD k 0, fun _ => 0x41⟩

/-- A file on `H:` is read, and a search on `Z:` goes on. -/
def onThreeVols : Call := ⟨sampleDos 2 0 0x59 7, sampleRegs 0x1108 1⟩

/-- With a stale index both are routed to their mounts, and in two runs with other calls before
they get the same answers and the same indices. -/
theorem threeVols_routed :
    RoutedExactly 0x08 (OfSft ⟨7⟩) ⟨⟨threeVols, 3, 9⟩, onThreeVols.dos, onThreeVols.r⟩ ∧
      RoutedExactly 0x1C (OfSdb onThreeVols.dos.sdb)
        ⟨⟨threeVols, 3, 9⟩, onThreeVols.dos, onThreeVols.r⟩ ∧
      ∀ function ∈ ([0x08, 0x1C] : List (BitVec 8)),
        (isCallForUs function ⟨serveAll ⟨threeVols, 3, 9⟩ [closeElsewhere, labelOfE],
            onThreeVols.dos, onThreeVols.r⟩).1 =
          (isCallForUs function ⟨serveAll ⟨threeVols, 3, 1⟩ [labelOfE], onThreeVols.dos,
            onThreeVols.r⟩).1 ∧
        (isCallForUs function ⟨serveAll ⟨threeVols, 3, 9⟩ [closeElsewhere, labelOfE],
            onThreeVols.dos, onThreeVols.r⟩).2.res.driveIdx =
          (isCallForUs function ⟨serveAll ⟨threeVols, 3, 1⟩ [labelOfE], onThreeVols.dos,
            onThreeVols.r⟩).2.res.driveIdx := by
  have hdistinct : Resident.Distinct ⟨threeVols, 3, 9⟩ :=
    show ∀ j < 3, ∀ k < 3, (threeVols j).driveNum = (threeVols k).driveNum → j = k by decide
  obtain ⟨hhandle, hfindNext, hhistory⟩ := isCallForUs_search_exact hdistinct onThreeVols
  refine ⟨hhandle 0x08 (by decide), hfindNext, fun function hfunction => ?_⟩
  have hsearch : SearchBased function := by
    simp only [List.mem_cons, List.not_mem_nil, or_false] at hfunction
    rcases hfunction with rfl | rfl
    · exact .inl (by decide)
    · exact .inr rfl
  exact hhistory function hsearch ⟨threeVols, 3, 9⟩ ⟨threeVols, 3, 1⟩ ⟨rfl, rfl⟩ ⟨rfl, rfl⟩
    [closeElsewhere, labelOfE] [labelOfE]

/-- The file is found at index 1, and the search block at index 2. -/
example :
    let s : State := ⟨⟨threeVols, 3, 9⟩, onThreeVols.dos, onThreeVols.r⟩
    (isCallForUs 0x08 s).2.res.driveIdx = 1 ∧ (isCallForUs 0x1C s).2.res.driveIdx = 2 := by
  decide

end Redir

end Vbsmount

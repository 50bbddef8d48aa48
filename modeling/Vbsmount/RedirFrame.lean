/-
**What a call changes, and what it leaves alone.**

The handler sits in a chain that other redirectors share.  A call that is not for it has to go on as
it came, and this is not obvious, since `IsCallForUs` moves the index and fills the FCB name while
it is still deciding.  A call that it claims may change the result registers, the FCB name and, in a
search for the volume label, the search block and the found entry.

Main definitions:

* `Redir.Has83Name` — the path of the call ends in a name of the 8.3 form;
* `Redir.AcceptedByCurrent` — a call that is accepted through the CDS of the current drive;
* `Redir.NameFilled` — what `IsCallForUs` may have done to the registers and the DOS structures;
* `Redir.LabelSdb`, `Redir.LabelFdb` — the two blocks agree outside of what a label search writes;
* `Redir.TouchesOwnOnly` — what a claimed call may change.

Main results:

* `Redir.isCallForUs_of_false` — `IsCallForUs` does not write before it says no;
* `Redir.dispatch_handler` — only two handlers do anything;
* `Redir.int2fRedirector_frame` — **a chained call changes nothing, and a claimed one only what
  belongs to it**.
-/

import Vbsmount.RedirHistory
import Vbsmount.FcbName83

set_option relaxedAutoImplicit false
set_option autoImplicit false

namespace Vbsmount

open Bytes CString

namespace Redir

/-! ### Frames -/

/-- The last component of the path is a name of the 8.3 form behind a backslash. -/
def Has83Name (dos : DosState) : Prop :=
  ∃ (dir : Str chNul) (n : Name83) (rest : List (BitVec 8)), dos.fileName1 = n.path dir rest

/-- The call is accepted through the CDS of the current drive. -/
def AcceptedByCurrent (s : State) : Prop :=
  PathBased s.r.al ∧ ¬ (s.r.al = 0x0C ∧ (s.dos.cds s.r.esdi).Ours) ∧
    (s.dos.cds s.dos.sda.currentCDS).Ours

/-- The FCB names agree, or differ in the eleven bytes of the name in a call through the CDS of the
current drive. -/
def NameFrame (s : State) (fcbName1 : Mem) : Prop :=
  fcbName1 = s.dos.fcbName1 ∨ (AcceptedByCurrent s ∧ Mem.AgreeFrom 11 fcbName1 s.dos.fcbName1)

/-- Nothing has happened to the registers and the DOS structures but to the FCB name. -/
structure NameFilled (s s' : State) : Prop where
  r : s'.r = s.r
  dos : ∃ fcbName1, s'.dos = { s.dos with fcbName1 := fcbName1 } ∧ NameFrame s fcbName1

/-- The search blocks agree but for the drive, the entry number and the eleven bytes of the mask. -/
structure LabelSdb (sdb sdb' : SDB) : Prop where
  attrMask : sdb'.attrMask = sdb.attrMask
  dirHandle : sdb'.dirHandle = sdb.dirHandle
  isRoot : sdb'.isRoot = sdb.isRoot
  searchMask : Mem.AgreeFrom 11 sdb'.searchMask sdb.searchMask

/-- The found entries agree but for the attribute, the time, the size and the eleven bytes of the
name. -/
structure LabelFdb (fdb fdb' : FDB) : Prop where
  fileName : Mem.AgreeFrom 11 fdb'.fileName fdb.fileName

/-- A search for the volume label. -/
def IsLabelSearch (s : State) : Prop := s.r.al = 0x1B ∧ s.dos.sda.attrMask = aVolid

/-- The search block and the found entry are as they were, or a search for the volume label has
written its answer there. -/
def BlocksFrame (s s' : State) : Prop :=
  (s'.dos.sdb = s.dos.sdb ∧ s'.dos.fdb = s.dos.fdb) ∨
    (IsLabelSearch s ∧ LabelSdb s.dos.sdb s'.dos.sdb ∧ LabelFdb s.dos.fdb s'.dos.fdb)

/-- A claimed call has changed `AX` and the carry flag, and of the DOS structures at most the FCB
name and the two blocks of a search. -/
structure TouchesOwnOnly (s s' : State) : Prop where
  r : s'.r = { s.r with
    ax := if s.r.al = 0 then 0x00FF else 0
    flags := s.r.flags &&& ~~~intrCf }
  sft : s'.dos.sft = s.dos.sft
  cds : s'.dos.cds = s.dos.cds
  sda : s'.dos.sda = s.dos.sda
  fileName1 : s'.dos.fileName1 = s.dos.fileName1
  fcbName1 : NameFrame s s'.dos.fcbName1
  blocks : BlocksFrame s s'

/-! ### Routing -/

section

variable {s s' : State} {function : BitVec 8}

/-- **`IsCallForUs` does not write before it says no.** -/
theorem isCallForUs_of_false (h : (isCallForUs function s).1 = false) :
    (isCallForUs function s).2.r = s.r ∧ (isCallForUs function s).2.dos = s.dos := by
  refine ⟨(isCallForUs_frame function).1, ?_⟩
  unfold isCallForUs at h ⊢
  split_ifs at h ⊢
  · rfl
  · rfl
  · rfl

/-- A name of the 8.3 form stays inside the FCB name. -/
theorem agreeFrom_fillFcbName (hname : Has83Name s.dos) :
    Mem.AgreeFrom 11 (fillFcbName s.dos.fcbName1 s.dos.fileName1) s.dos.fcbName1 := by
  obtain ⟨dir, n, rest, hpath⟩ := hname
  rw [hpath, fillFcbName_path]
  intro i hi
  exact Mem.write_of_ge (by simpa using hi)

/-- What `IsCallForUs` may have done when it has said yes. -/
theorem isCallForUs_nameFilled (hname : Has83Name s.dos) :
    NameFilled s (isCallForUs s.r.al s).2 := by
  refine ⟨(isCallForUs_frame s.r.al).1, ?_⟩
  by_cases hp : PathBased s.r.al
  · rw [isCallForUs_skip hp]
    split_ifs with hasked hcur
    · exact ⟨s.dos.fcbName1, rfl, Or.inl rfl⟩
    · exact ⟨_, rfl, Or.inr ⟨⟨hp, hasked, hcur⟩, agreeFrom_fillFcbName hname⟩⟩
    · exact ⟨s.dos.fcbName1, rfl, Or.inl rfl⟩
  · -- the other calls do not come to the last branch
    refine ⟨s.dos.fcbName1, ?_, Or.inl rfl⟩
    unfold isCallForUs
    split_ifs with h00 hsearch hnext
    · rfl
    · rfl
    · rfl
    · rfl
    · exact absurd ⟨h00, fun h => hsearch (Or.inl h), fun h => hsearch (Or.inr h), hnext⟩ hp
    · rfl

/-! ### Handlers -/

/-- **Only two handlers do anything**: the installation check and `FindFirst`. -/
theorem dispatch_handler {al : BitVec 8} {f : State → State} (hf : dispatch al = some f)
    (h00 : al ≠ 0x00) (h1B : al ≠ 0x1B) (s : State) : f s = s := by
  have hall : ∀ o ∈ (dispatchTable.set 0x00 none).set 0x1B none,
      ∀ f, o = some f → ∀ s : State, f s = s := by
    simp only [dispatchTable, List.set_cons_zero, List.set_cons_succ, List.forall_mem_cons,
      Option.some.injEq, forall_eq', reduceCtorEq, false_imp_iff, implies_true, true_and,
      List.not_mem_nil, and_true]
    and_intros
    all_goals exact fun s => rfl
  have h00' : 0x00 ≠ al.toNat := fun h => h00 (BitVec.eq_of_toNat_eq h.symm)
  have h1B' : 0x1B ≠ al.toNat := fun h => h1B (BitVec.eq_of_toNat_eq h.symm)
  have hget := Option.join_eq_some_iff.1 hf
  rw [← List.getElem?_set_ne h00', ← List.getElem?_set_ne h1B'] at hget
  exact hall _ (List.mem_of_getElem? hget) f rfl s

/-- The result registers are set after routing. -/
theorem NameFilled.touchesOwnOnly {t : State} (h : NameFilled s s')
    (hr : t.r = { s'.r with
      ax := if s.r.al = 0 then 0x00FF else 0
      flags := s'.r.flags &&& ~~~intrCf })
    (hdos : t.dos = s'.dos) : TouchesOwnOnly s t := by
  obtain ⟨hr', fcbName1, hdos', hfcb⟩ := h
  rw [hr'] at hr
  rw [hdos'] at hdos
  constructor
  · exact hr
  · rw [hdos]
  · rw [hdos]
  · rw [hdos]
  · rw [hdos]
  · rw [hdos]
    exact hfcb
  · left
    rw [hdos]
    exact ⟨rfl, rfl⟩

/-- `FindFirst` writes its answer into the two blocks and into nothing else. -/
theorem findFirst_blocks (t : State) :
    (findFirst t).r = t.r ∧
    (∃ sdb fdb, (findFirst t).dos = { t.dos with sdb := sdb, fdb := fdb }) ∧
    (t.dos.sda.attrMask ≠ aVolid → findFirst t = t) ∧
    LabelSdb t.dos.sdb (findFirst t).dos.sdb ∧ LabelFdb t.dos.fdb (findFirst t).dos.fdb := by
  unfold findFirst
  split_ifs with hattr
  · refine ⟨rfl, ⟨_, _, rfl⟩, fun h => absurd hattr h, ⟨rfl, rfl, rfl, fun i hi => ?_⟩,
      ⟨fun i hi => ?_⟩⟩
    · have hnot : ¬ i < (11 : BitVec 16).toNat := Nat.not_lt.2 hi
      simp only [fmemcpyLocal_eq, if_neg hnot]
    · simp only [cpUcs2ToLocal_apply, if_neg (Nat.not_lt.2 hi)]
  · exact ⟨rfl, ⟨_, _, rfl⟩, fun _ => rfl, ⟨rfl, rfl, rfl, fun i _ => rfl⟩, ⟨fun i _ => rfl⟩⟩

/-- `FindFirst` stays within what a claimed call may change. -/
theorem TouchesOwnOnly.findFirst (h : TouchesOwnOnly s s') (h1B : s.r.al = 0x1B)
    (hblocks : s'.dos.sdb = s.dos.sdb ∧ s'.dos.fdb = s.dos.fdb) :
    TouchesOwnOnly s (findFirst s') := by
  obtain ⟨hr, ⟨sdb, fdb, hdos⟩, hid, hsdb, hfdb⟩ := findFirst_blocks s'
  by_cases hattr : s'.dos.sda.attrMask = aVolid
  · constructor
    · exact hr.trans h.r
    · exact (congrArg DosState.sft hdos).trans h.sft
    · exact (congrArg DosState.cds hdos).trans h.cds
    · exact (congrArg DosState.sda hdos).trans h.sda
    · exact (congrArg DosState.fileName1 hdos).trans h.fileName1
    · rw [hdos]
      exact h.fcbName1
    · rw [hblocks.1] at hsdb
      rw [hblocks.2] at hfdb
      rw [h.sda] at hattr
      exact Or.inr ⟨⟨h1B, hattr⟩, hsdb, hfdb⟩
  · rw [hid hattr]
    exact h

/-! ### The handler as a whole -/

/-- A call with a handler is chained or claimed as `IsCallForUs` says. -/
theorem int2fRedirector_of_dispatch {f : State → State} (hah : s.r.ah = 0x11)
    (hf : dispatch s.r.al = some f) :
    int2fRedirector s =
      if (isCallForUs s.r.al s).1 = true then (.claimed, f (success (isCallForUs s.r.al s).2))
      else (.chained, (isCallForUs s.r.al s).2) := by
  rcases route_cases s with ⟨hnot, -⟩ | ⟨-, g, hg, hroute⟩
  · rw [hnot.resolve_left (not_not.2 hah)] at hf
    cases hf
  · obtain rfl : g = f := Option.some.inj (hg.symm.trans hf)
    rw [int2fRedirector, hroute]
    cases (isCallForUs s.r.al s).1 with
    | true => rfl
    | false => rfl

/-- The other calls are chained as they are. -/
theorem int2fRedirector_of_no_handler (h : s.r.ah ≠ 0x11 ∨ dispatch s.r.al = none) :
    int2fRedirector s = (.chained, s) := by
  rcases route_cases s with ⟨-, hroute⟩ | ⟨hah, f, hf, -⟩
  · rw [int2fRedirector, hroute]
  · rcases h with h | h
    · exact absurd hah h
    · rw [hf] at h
      cases h

/-- What a claimed call changes. -/
theorem touchesOwnOnly_of_routed {f : State → State} (hf : dispatch s.r.al = some f)
    (h : NameFilled s s') : TouchesOwnOnly s (f (success s')) := by
  by_cases h00 : s.r.al = 0x00
  · rw [h00] at hf
    obtain rfl : installationCheck = f := Option.some.inj hf
    exact h.touchesOwnOnly (by rw [if_pos h00]; rfl) rfl
  · have hsuccess : TouchesOwnOnly s (success s') :=
      h.touchesOwnOnly (by rw [if_neg h00]; rfl) rfl
    by_cases h1B : s.r.al = 0x1B
    · rw [h1B] at hf
      obtain rfl : findFirst = f := Option.some.inj hf
      obtain ⟨-, fcbName1, hdos, -⟩ := h
      have hblocks : s'.dos.sdb = s.dos.sdb ∧ s'.dos.fdb = s.dos.fdb := by
        rw [hdos]
        exact ⟨rfl, rfl⟩
      exact hsuccess.findFirst h1B hblocks
    · rw [dispatch_handler hf h00 h1B]
      exact hsuccess

/-- **A chained call changes nothing, and a claimed one only what belongs to it**, whatever the
registers and the mounts, and for every path that ends in a name of the 8.3 form. -/
theorem int2fRedirector_frame (hname : Has83Name s.dos) :
    ((int2fRedirector s).1 = .chained ↔ s.r.ah ≠ 0x11 ∨ maxFunction < s.r.al ∨
      dispatch s.r.al = none ∨ (isCallForUs s.r.al s).1 = false) ∧
    ((int2fRedirector s).1 = .chained →
      (int2fRedirector s).2.r = s.r ∧ (int2fRedirector s).2.dos = s.dos) ∧
    ((int2fRedirector s).1 = .claimed → TouchesOwnOnly s (int2fRedirector s).2) := by
  by_cases hhandler : s.r.ah ≠ 0x11 ∨ dispatch s.r.al = none
  · rw [int2fRedirector_of_no_handler hhandler]
    refine ⟨iff_of_true rfl ?_, fun _ => ⟨rfl, rfl⟩, fun h => by cases h⟩
    rcases hhandler with h | h
    · exact Or.inl h
    · exact Or.inr (Or.inr (Or.inl h))
  · push Not at hhandler
    obtain ⟨hah, hsome⟩ := hhandler
    obtain ⟨f, hf⟩ := Option.ne_none_iff_exists'.1 hsome
    rw [int2fRedirector_of_dispatch hah hf]
    cases haccept : (isCallForUs s.r.al s).1 with
    | true =>
        have hno : ¬ (s.r.ah ≠ 0x11 ∨ maxFunction < s.r.al ∨ dispatch s.r.al = none ∨
            true = false) := by
          rintro (h | h | h | h)
          · exact h hah
          · exact hsome (dispatch_of_maxFunction_lt h)
          · exact hsome h
          · cases h
        rw [if_pos rfl]
        refine ⟨iff_of_false (fun h => by cases h) hno, fun h => (by cases h), fun _ => ?_⟩
        exact touchesOwnOnly_of_routed hf (isCallForUs_nameFilled hname)
    | false =>
        rw [if_neg Bool.false_ne_true]
        refine ⟨iff_of_true rfl (Or.inr (Or.inr (Or.inr rfl))), fun _ => ?_, fun h => by cases h⟩
        exact isCallForUs_of_false haccept

end

/-- The label of `E:` is asked for, with the path `E:\A`. -/
theorem labelSearch_frame :
    ((int2fRedirector labelSearch).1 = .chained ↔ labelSearch.r.ah ≠ 0x11 ∨
      maxFunction < labelSearch.r.al ∨ dispatch labelSearch.r.al = none ∨
      (isCallForUs labelSearch.r.al labelSearch).1 = false) ∧
    ((int2fRedirector labelSearch).1 = .chained →
      (int2fRedirector labelSearch).2.r = labelSearch.r ∧
        (int2fRedirector labelSearch).2.dos = labelSearch.dos) ∧
    ((int2fRedirector labelSearch).1 = .claimed →
      TouchesOwnOnly labelSearch (int2fRedirector labelSearch).2) :=
  int2fRedirector_frame ⟨⟨[0x45, 0x3A], by decide⟩,
    ⟨[0x41], [], by decide, by decide, by simp [OrdinaryChar, chBlank, chDot, chBackslash, chNul],
      by simp⟩, [], rfl⟩

end Redir

end Vbsmount

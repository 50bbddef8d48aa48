/-
**Finding the resident driver and removing it (`AlreadyInstalled`, `UninstallDriver`).**

The loader finds the resident copy of the driver through the current directory structures of the
drives it has mounted.  `AlreadyInstalled` stops at the first CDS that carries the driver's mark and
leaves `fpCurrDir` there; `UninstallDriver` takes the drive behind that pointer out of the table,
gives the interrupt vector back and ends the host session of the resident copy.

Main definitions:

* `alreadyInstalled`, `uninstallDriver` — the source's functions;
* `ShowsResident` — a drive that shows the resident copy;
* `IsMount`, `AllOrNothing` — the drives of the resident copy, and what uninstalling has to do.

Main results:

* `alreadyInstalled_eq_some_iff` — what `AlreadyInstalled` answers;
* `dos_uninstallDriver` — what `UninstallDriver` does to DOS;
* `uninstallDriver_allOrNothing_iff` — **uninstalling is all or nothing exactly when the vector was
  taken over by somebody else or a single CDS belongs to the driver**.

The switch to the PSP of the resident copy and its termination are left out: the value of
`uninstallDriver` says whether execution goes on there.
-/

import Vbsmount.VBoxAux
import Vbsmount.Lib.Search

set_option relaxedAutoImplicit false
set_option autoImplicit false

namespace Vbsmount

open Bytes VmmDev

/-! ### `AlreadyInstalled` -/

/-- `! _fstrncmp( s1, s2, n )` from index `i` on. -/
def fstrncmpEqual (s₁ s₂ : Mem) (i : ℕ) : ℕ → Bool
  | 0 => true
  | n + 1 =>
      if s₁ i ≠ s₂ i then false
      else if s₁ i = chNul then true
      else fstrncmpEqual s₁ s₂ (i + 1) n

/-- `myName`. -/
def myName : Mem := fun i => (cstring "VBSMOUNT").getD i 0

/-- Where the loop of `AlreadyInstalled` stops. -/
def Dos.firstMarked (d : Dos) : ℕ :=
  Search.scan (fun k => decide (d.currDir k).Ours) 4 d.lastDrive.toNat

/-- `AlreadyInstalled`: the port and the client id of the resident copy if it returns 1.  The loop
leaves `fpCurrDir` at the last CDS it has looked at. -/
def alreadyInstalled (d : Dos) : Option (BitVec 16 × BitVec 32) × Dos :=
  let driveNum := d.firstMarked
  let d' := if 4 < d.lastDrive.toNat then
      { d with fpCurrDir := some (min driveNum (d.lastDrive.toNat - 1)) }
    else d
  if driveNum < d.lastDrive.toNat then
    let redirIFSRecordPtr := (d.currDir driveNum).redirIFSRecordPtr
    if redirIFSRecordPtr ≠ 0 ∧ redirIFSRecordPtr ≠ 0xFFFFFFFF then
      let sig := d.signature redirIFSRecordPtr
      if fstrncmpEqual sig.signature myName 0 9 then (some (sig.pciPort, sig.clientId), d')
      else (none, d')
    else (none, d')
  else (none, d')

/-- A comparison that ends with the string it compares with is equality up to there. -/
theorem fstrncmpEqual_iff {s₁ s₂ : Mem} (n : ℕ) : ∀ i, (∀ j < n, s₂ (i + j) ≠ chNul) →
    (fstrncmpEqual s₁ s₂ i (n + 1) = true ↔ ∀ j < n + 1, s₁ (i + j) = s₂ (i + j)) := by
  induction n with
  | zero =>
      intro i _
      by_cases heq : s₁ i = s₂ i
      · simp [fstrncmpEqual, heq]
      · simp [fstrncmpEqual, heq]
  | succ n ih =>
      intro i hne
      have htail : ∀ j < n, s₂ (i + 1 + j) ≠ chNul := by
        intro j hj
        rw [Nat.add_assoc, Nat.add_comm 1]
        exact hne (j + 1) (by omega)
      have hshift : (∀ j < n + 1 + 1, s₁ (i + j) = s₂ (i + j)) ↔
          s₁ i = s₂ i ∧ ∀ j < n + 1, s₁ (i + 1 + j) = s₂ (i + 1 + j) := by
        simp only [Nat.forall_lt_succ_left, Nat.add_zero, Nat.add_assoc, Nat.add_comm 1]
      rw [hshift, ← ih (i + 1) htail, fstrncmpEqual]
      by_cases heq : s₁ i = s₂ i
      · have hnul : s₁ i ≠ chNul := heq ▸ hne 0 (Nat.succ_pos n)
        rw [if_neg (not_not.2 heq), if_neg hnul]
        exact (and_iff_right heq).symm
      · rw [if_pos heq]
        exact iff_of_false Bool.false_ne_true fun h => heq h.1

/-- The CDS of a drive in the range of the scan shows the resident copy: it has the mark and points to a
record with the name. -/
structure ShowsResident (d : Dos) (k : ℕ) : Prop where
  range : 4 ≤ k ∧ k < d.lastDrive.toNat
  ours : (d.currDir k).Ours
  ptr_ne : (d.currDir k).redirIFSRecordPtr ≠ 0 ∧ (d.currDir k).redirIFSRecordPtr ≠ 0xFFFFFFFF
  name : ∀ i < 9, (d.signature (d.currDir k).redirIFSRecordPtr).signature i = myName i

/-- No drive of the scan before `k` has the mark. -/
def Dos.FirstMarked (d : Dos) (k : ℕ) : Prop := ∀ j, 4 ≤ j → j < k → ¬ (d.currDir j).Ours

theorem fstrncmpEqual_myName {sig : Mem} :
    fstrncmpEqual sig myName 0 9 = true ↔ ∀ i < 9, sig i = myName i := by
  have hname : ∀ j < 8, myName (0 + j) ≠ chNul := by decide
  simpa only [Nat.zero_add] using fstrncmpEqual_iff 8 0 hname

/-- The answer that the loader takes from a drive. -/
def Dos.answerAt (d : Dos) (k : ℕ) : BitVec 16 × BitVec 32 :=
  ((d.signature (d.currDir k).redirIFSRecordPtr).pciPort,
    (d.signature (d.currDir k).redirIFSRecordPtr).clientId)

/-- **The answer of `AlreadyInstalled`** is that of the first drive with the mark, if it shows the
resident copy. -/
theorem alreadyInstalled_of_first {d : Dos} {k : ℕ} (hk : ShowsResident d k)
    (hfirst : d.FirstMarked k) :
    alreadyInstalled d = (some (d.answerAt k), { d with fpCurrDir := some k }) := by
  have hrange := hk.range
  have hscan : d.firstMarked = k := by
    refine le_antisymm (Nat.not_lt.1 fun hlt => ?_) (Nat.not_lt.1 fun hlt => ?_)
    · have hpass := Search.not_of_lt_scan hrange.1 hlt
      simp only [decide_eq_false_iff_not] at hpass
      exact hpass hk.ours
    · have hfound := Search.scan_found (p := fun k => decide (d.currDir k).Ours)
        (hlt.trans hrange.2)
      exact hfirst d.firstMarked Search.le_scan hlt (of_decide_eq_true hfound)
  have hlast : 4 < d.lastDrive.toNat := by omega
  have hmin : min k (d.lastDrive.toNat - 1) = k := by omega
  rw [alreadyInstalled, hscan]
  simp only [if_pos hlast, hmin, if_pos hrange.2, if_pos hk.ptr_ne,
    if_pos (fstrncmpEqual_myName.2 hk.name)]
  rfl

/-- There is no other answer. -/
theorem alreadyInstalled_eq_some_iff {d : Dos} {out : BitVec 16 × BitVec 32} :
    (alreadyInstalled d).1 = some out ↔
      ∃ k, ShowsResident d k ∧ d.FirstMarked k ∧ out = d.answerAt k := by
  constructor
  · intro h
    unfold alreadyInstalled at h
    dsimp only at h
    split_ifs at h with hfound hptr hname hlast
    all_goals
      have hours : (d.currDir d.firstMarked).Ours := of_decide_eq_true
        (Search.scan_found (p := fun k => decide (d.currDir k).Ours) hfound)
      have hfirst : d.FirstMarked d.firstMarked := fun j hj hlt =>
        of_decide_eq_false (Search.not_of_lt_scan hj hlt)
      exact ⟨d.firstMarked, ⟨⟨Search.le_scan, hfound⟩, hours, hptr,
        fstrncmpEqual_myName.1 hname⟩, hfirst, (Option.some.inj h).symm⟩
  · rintro ⟨k, hk, hfirst, rfl⟩
    rw [alreadyInstalled_of_first hk hfirst]

/-- What an answer of `AlreadyInstalled` says. -/
structure FoundAt (d : Dos) (k : ℕ) : Prop where
  range : 4 ≤ k ∧ k < d.lastDrive.toNat
  ours : (d.currDir k).Ours
  ptr_ne : (d.currDir k).redirIFSRecordPtr ≠ 0xFFFFFFFF

/-- **An answer of `AlreadyInstalled`** is read from the record of a drive with the mark, to which
`fpCurrDir` points afterwards. -/
theorem alreadyInstalled_eq_some {d : Dos} {out : BitVec 16 × BitVec 32}
    (h : (alreadyInstalled d).1 = some out) :
    ∃ k, FoundAt d k ∧ (alreadyInstalled d).2 = { d with fpCurrDir := some k } ∧
      out = ((d.signature (d.currDir k).redirIFSRecordPtr).pciPort,
        (d.signature (d.currDir k).redirIFSRecordPtr).clientId) := by
  obtain ⟨k, hk, hfirst, hout⟩ := alreadyInstalled_eq_some_iff.1 h
  refine ⟨k, ⟨hk.range, hk.ours, hk.ptr_ne.2⟩, ?_, hout⟩
  rw [alreadyInstalled_of_first hk hfirst]

/-- No answer, when no CDS of the table carries the mark. -/
theorem alreadyInstalled_of_unmarked {d : Dos}
    (h : ∀ k < d.lastDrive.toNat, ¬ (d.currDir k).Ours) : (alreadyInstalled d).1 = none := by
  cases hout : (alreadyInstalled d).1 with
  | none => rfl
  | some out =>
      obtain ⟨k, hk, -⟩ := alreadyInstalled_eq_some hout
      exact absurd hk.ours (h k hk.range.2)

/-! ### `UninstallDriver` -/

/-- The stores of `UninstallDriver`: the vector goes back, and the drive is taken out of the table. -/
def Dos.release (d : Dos) (k : ℕ) (previousHandler : FarPtr) : Dos :=
  { d with
    vect2f := previousHandler
    currDir := Function.update d.currDir k { d.currDir k with
      flags := (d.currDir k).flags &&& ~~~(network ||| physical)
      parameter := 0
      redirIFSRecordPtr := 0xFFFFFFFF } }

/-- `UninstallDriver`; the value says whether execution goes on in the resident copy, which is then
terminated.  Without a search before it, `fpCurrDir` points nowhere. -/
def uninstallDriver (lay : Layout) : Code Bool := do
  let d ← getDos
  match d.fpCurrDir with
  | none => return false
  | some k =>
      let sig := d.signature (d.currDir k).redirIFSRecordPtr
      if sig.ourHandler ≠ d.prevInt2fHandler then
        -- another handler was installed
        return false
      else
        setDos (d.release k sig.previousHandler)
        vboxAuxEndSession lay (sig.clientId.setWidth 16) (sig.pciPort.setWidth 32)
        return true

/-- The record that `UninstallDriver` works with. -/
def Dos.sigAt (d : Dos) (k : ℕ) : Signature := d.signature (d.currDir k).redirIFSRecordPtr

/-- With another handler in the vector, `UninstallDriver` does nothing. -/
theorem after_uninstallDriver_of_ne (e : Env) (lay : Layout) {m : Machine} {k : ℕ}
    (hk : m.dos.fpCurrDir = some k) (h : (m.dos.sigAt k).ourHandler ≠ m.dos.prevInt2fHandler) :
    after e (uninstallDriver lay) m = m := by
  rw [uninstallDriver, after_bind]
  change after e (match m.dos.fpCurrDir with | none => _ | some k => _) m = m
  rw [hk]
  exact congrArg (fun p => after e p m) (if_pos h)

/-- Otherwise it releases the drive and ends the session, with the two numbers of the record in
each other's place. -/
theorem after_uninstallDriver_of_eq (e : Env) (lay : Layout) {m : Machine} {k : ℕ}
    (hk : m.dos.fpCurrDir = some k) (h : (m.dos.sigAt k).ourHandler = m.dos.prevInt2fHandler) :
    after e (uninstallDriver lay) m =
      after e (vboxAuxEndSession lay ((m.dos.sigAt k).clientId.setWidth 16)
        ((m.dos.sigAt k).pciPort.setWidth 32))
        { m with dos := m.dos.release k (m.dos.sigAt k).previousHandler } := by
  rw [uninstallDriver, after_bind]
  change after e (match m.dos.fpCurrDir with | none => _ | some k => _) m = _
  rw [hk]
  refine (congrArg (fun p => after e p m) (if_neg (not_not.2 h))).trans ?_
  rw [after_bind, after_bind]
  rfl

/-- What `UninstallDriver` does to DOS. -/
theorem dos_uninstallDriver (e : Env) (lay : Layout) {m : Machine} {k : ℕ}
    (hk : m.dos.fpCurrDir = some k) :
    (after e (uninstallDriver lay) m).dos =
      if (m.dos.sigAt k).ourHandler = m.dos.prevInt2fHandler then
        m.dos.release k (m.dos.sigAt k).previousHandler
      else m.dos := by
  split_ifs with h
  · rw [after_uninstallDriver_of_eq e lay hk h]
    obtain ⟨es, hes, -⟩ := emits_endSession e lay
      { m with dos := m.dos.release k (m.dos.sigAt k).previousHandler }
      ((m.dos.sigAt k).clientId.setWidth 16) ((m.dos.sigAt k).pciPort.setWidth 32)
    exact hes.dos
  · rw [after_uninstallDriver_of_ne e lay hk h]

/-! ### All or nothing -/

/-- The drive was mounted by the copy of the driver whose record is at `p`. -/
def IsMount (d : Dos) (p : FarPtr) (k : ℕ) : Prop :=
  (d.currDir k).Ours ∧ (d.currDir k).redirIFSRecordPtr = p

instance (d : Dos) (p : FarPtr) (k : ℕ) : Decidable (IsMount d p k) :=
  inferInstanceAs (Decidable (_ ∧ _))

/-- Nothing has happened, because the vector is not ours. -/
def Refused (d d' : Dos) (p : FarPtr) : Prop :=
  d.vect2f ≠ (d.signature p).ourHandler ∧ d'.vect2f = d.vect2f ∧ d'.currDir = d.currDir

/-- The vector is given back and no drive of the table is left behind; the other drives are as they
were. -/
structure Uninstalled (d d' : Dos) (p : FarPtr) : Prop where
  vect2f : d'.vect2f = (d.signature p).previousHandler
  unmarked : ∀ k < d.lastDrive.toNat, ¬ (d'.currDir k).Ours
  unreferenced : ∀ k < d.lastDrive.toNat, (d'.currDir k).redirIFSRecordPtr ≠ p
  invalid : ∀ k < d.lastDrive.toNat, IsMount d p k →
    (d'.currDir k).flags &&& (network ||| physical) = 0
  others : ∀ k, ¬ IsMount d p k → d'.currDir k = d.currDir k
  notInstalled : (alreadyInstalled d').1 = none

/-- Uninstalling is all or nothing. -/
def AllOrNothing (d d' : Dos) (p : FarPtr) : Prop := Refused d d' p ∨ Uninstalled d d' p

theorem release_currDir_self (d : Dos) (k : ℕ) (handler : FarPtr) :
    (d.release k handler).currDir k = { d.currDir k with
      flags := (d.currDir k).flags &&& ~~~(network ||| physical)
      parameter := 0
      redirIFSRecordPtr := 0xFFFFFFFF } :=
  Function.update_self ..

theorem release_currDir_of_ne (d : Dos) {j k : ℕ} (handler : FarPtr) (h : j ≠ k) :
    (d.release k handler).currDir j = d.currDir j :=
  Function.update_of_ne h ..

theorem and_not_and (x y : BitVec 16) : x &&& ~~~y &&& y = 0 := by
  ext i hi
  simp

/-- No CDS of the table other than the one at `k` carries the mark or refers to the same record. -/
def SoleMount (d : Dos) (k : ℕ) : Prop :=
  ∀ j < d.lastDrive.toNat, (d.currDir j).Ours ∨
    (d.currDir j).redirIFSRecordPtr = (d.currDir k).redirIFSRecordPtr → j = k

/-- Where no other CDS belongs to the driver, releasing the drive leaves nothing behind. -/
theorem uninstalled_release {d : Dos} {k : ℕ} (hk : FoundAt d k) (honly : SoleMount d k) :
    Uninstalled d (d.release k (d.sigAt k).previousHandler)
      (d.currDir k).redirIFSRecordPtr := by
  have hunmarked : ∀ j < d.lastDrive.toNat,
      ¬ ((d.release k (d.sigAt k).previousHandler).currDir j).Ours := by
    intro j hj hours
    by_cases hjk : j = k
    · subst hjk
      rw [release_currDir_self] at hours
      replace hours : (0 : BitVec 16) = vbsmountMagic := hours
      exact absurd hours (by decide)
    · rw [release_currDir_of_ne d _ hjk] at hours
      exact hjk (honly j hj (Or.inl hours))
  refine ⟨rfl, hunmarked, ?_, ?_, ?_, alreadyInstalled_of_unmarked hunmarked⟩
  · intro j hj hptr
    by_cases hjk : j = k
    · subst hjk
      rw [release_currDir_self] at hptr
      exact hk.ptr_ne hptr.symm
    · rw [release_currDir_of_ne d _ hjk] at hptr
      exact hjk (honly j hj (Or.inr hptr))
  · intro j hj hmount
    obtain rfl := honly j hj (Or.inl hmount.1)
    rw [release_currDir_self]
    exact and_not_and _ _
  · intro j hj
    refine release_currDir_of_ne d _ ?_
    intro hjk
    rw [hjk] at hj
    exact hj ⟨hk.ours, rfl⟩

/-- Where another CDS belongs to the driver, it is left behind. -/
theorem soleMount_of_uninstalled {d : Dos} {k : ℕ} {handler p : FarPtr}
    (hp : p = (d.currDir k).redirIFSRecordPtr) (h : Uninstalled d (d.release k handler) p) :
    SoleMount d k := by
  intro j hj hmarked
  by_contra hjk
  have hsame := release_currDir_of_ne d handler hjk
  rcases hmarked with hours | hptr
  · refine h.unmarked j hj ?_
    rw [hsame]
    exact hours
  · refine h.unreferenced j hj ?_
    rw [hsame, hp]
    exact hptr

/-- **Uninstalling is all or nothing exactly when the vector was taken over or a single CDS belongs
to the driver.**  `d` is DOS before the search, with the vector read into `*fpfpPrevInt2fHandler` as
`main` does; `k` is where the search has left `fpCurrDir`. -/
theorem uninstallDriver_allOrNothing_iff (e : Env) (lay : Layout) (m : Machine) {d : Dos} {k : ℕ}
    (hvect : d.prevInt2fHandler = d.vect2f) (hinstalled : (alreadyInstalled d).1.isSome)
    (hdos : m.dos = (alreadyInstalled d).2) (hk : m.dos.fpCurrDir = some k) :
    AllOrNothing m.dos (after e (uninstallDriver lay) m).dos (m.dos.currDir k).redirIFSRecordPtr ↔
      m.dos.vect2f ≠ (m.dos.sigAt k).ourHandler ∨ SoleMount m.dos k := by
  obtain ⟨out, hout⟩ := Option.isSome_iff_exists.1 hinstalled
  obtain ⟨k', hfound, hd, -⟩ := alreadyInstalled_eq_some hout
  rw [hd] at hdos
  have hfound' : FoundAt m.dos k := by
    rw [hdos] at hk ⊢
    obtain rfl := Option.some.inj hk
    exact ⟨hfound.range, hfound.ours, hfound.ptr_ne⟩
  have hprev : m.dos.prevInt2fHandler = m.dos.vect2f := by
    rw [hdos]
    exact hvect
  rw [dos_uninstallDriver e lay hk, hprev]
  constructor
  · intro h
    by_cases hours : (m.dos.sigAt k).ourHandler = m.dos.vect2f
    · rw [if_pos hours] at h
      rcases h with hrefused | hdone
      · exact Or.inl hrefused.1
      · exact Or.inr (soleMount_of_uninstalled rfl hdone)
    · exact Or.inl (Ne.symm hours)
  · intro h
    by_cases hours : (m.dos.sigAt k).ourHandler = m.dos.vect2f
    · rw [if_pos hours]
      exact Or.inr (uninstalled_release hfound' (h.resolve_left (not_not.2 hours.symm)))
    · rw [if_neg hours]
      exact Or.inl ⟨Ne.symm hours, rfl, rfl⟩

/-! ### Two mounted drives -/

/-- The record of a resident copy. -/
def sampleSignature : Signature where
  signature := myName
  ourHandler := 0x10000100
  previousHandler := 0x00700000
  pciPort := 0xD020
  clientId := 1

/-- DOS with a resident copy that has mounted the given drives. -/
def dosWithMounts (drives : List ℕ) : Dos where
  lastDrive := 8
  currDir := fun k =>
    if k ∈ drives then ⟨fun _ => chA, network ||| physical, 0x10000010, vbsmountMagic⟩
    else ⟨fun _ => chA, physical, 0, 0⟩
  signature := fun _ => sampleSignature
  vect2f := sampleSignature.ourHandler
  prevInt2fHandler := sampleSignature.ourHandler
  fpCurrDir := none

def sampleLayout : Layout := ⟨0x0100, 0x0200, 0x0400⟩

/-- A host that does nothing, and a program in data segment 2000h. -/
def silentEnv : Env := ⟨0x2000, ⟨fun _ _ shared => shared, fun _ shared => shared,
  fun _ _ => ⟨0, 0, 0, 0⟩⟩⟩

/-- The machine behind `AlreadyInstalled`. -/
def machineWithMounts (drives : List ℕ) : Machine :=
  ⟨⟨fun _ => 0, fun _ => 0⟩, 0, (alreadyInstalled (dosWithMounts drives)).2, 0, []⟩

theorem oneMount_uninstalled :
    AllOrNothing (machineWithMounts [4]).dos
        (after silentEnv (uninstallDriver sampleLayout) (machineWithMounts [4])).dos 0x10000010 ↔
      (machineWithMounts [4]).dos.vect2f ≠ ((machineWithMounts [4]).dos.sigAt 4).ourHandler ∨
        SoleMount (machineWithMounts [4]).dos 4 :=
  uninstallDriver_allOrNothing_iff silentEnv sampleLayout (machineWithMounts [4])
    (d := dosWithMounts [4]) rfl (by decide) rfl rfl

/-- With two drives, the second one is left behind, and the driver is still found. -/
theorem twoMounts_left_behind :
    (alreadyInstalled (dosWithMounts [4, 6])).1 = some (0xD020, 1) ∧
    (machineWithMounts [4, 6]).dos.fpCurrDir = some 4 ∧
    (∀ k ∈ [4, 6], IsMount (machineWithMounts [4, 6]).dos 0x10000010 k) ∧
    (alreadyInstalled
      (after silentEnv (uninstallDriver sampleLayout) (machineWithMounts [4, 6])).dos).1 =
        some (0xD020, 1) ∧
    ¬ AllOrNothing (machineWithMounts [4, 6]).dos
        (after silentEnv (uninstallDriver sampleLayout) (machineWithMounts [4, 6])).dos
        0x10000010 := by
  have hdos := dos_uninstallDriver silentEnv sampleLayout (m := machineWithMounts [4, 6]) (k := 4) rfl
  rw [if_pos (by decide)] at hdos
  have hstill : (alreadyInstalled
      (after silentEnv (uninstallDriver sampleLayout) (machineWithMounts [4, 6])).dos).1 =
        some (0xD020, 1) := by
    rw [hdos]
    decide
  refine ⟨by decide, by decide, by decide, hstill, ?_⟩
  rintro (⟨hne, -⟩ | hdone)
  · exact hne (by decide)
  · rw [hdone.notInstalled] at hstill
    cases hstill

end Vbsmount

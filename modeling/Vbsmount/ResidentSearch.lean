/-
**Whether the search for the resident copy finds it.**

The loop of `AlreadyInstalled` stops at the first CDS with the driver's mark, and only then does the
function look at the pointer and the name behind it.  An entry with the mark that is stale or
belongs to somebody else ends the search, and a drive further on that does show the resident copy is
not looked at any more.

Main definitions:

* `storedAnswer` — the two output variables after the call;
* `FindsShownResident` — the search finds the resident copy whenever a drive shows it.

Main results:

* `alreadyInstalled_isSome_iff` — what the search finds;
* `alreadyInstalled_findsShownResident_iff` — **the search finds the resident copy exactly when one of the
  drives that show it comes before every other drive with the mark**, or no drive shows it.
-/

import Vbsmount.Installed

set_option relaxedAutoImplicit false
set_option autoImplicit false

namespace Vbsmount

open Bytes

/-- `*pPciPort` and `*pClientId` after the call. -/
def storedAnswer (d : Dos) (old : BitVec 16 × BitVec 32) : BitVec 16 × BitVec 32 :=
  (alreadyInstalled d).1.getD old

/-- The search answers 1 exactly when some drive shows the resident copy; then `fpCurrDir` is at such
a drive and the output variables are those of its record, and otherwise they are as they were. -/
structure FindsShownResident (d : Dos) : Prop where
  answer : (alreadyInstalled d).1.isSome ↔ ∃ k, ShowsResident d k
  found : (alreadyInstalled d).1.isSome → ∃ k, ShowsResident d k ∧
    (alreadyInstalled d).2.fpCurrDir = some k ∧ ∀ old, storedAnswer d old = d.answerAt k
  unchanged : (alreadyInstalled d).1 = none → ∀ old, storedAnswer d old = old

/-- **What the search finds**: a drive that shows the resident copy and is the first one with the
mark. -/
theorem alreadyInstalled_isSome_iff {d : Dos} :
    (alreadyInstalled d).1.isSome ↔ ∃ k, ShowsResident d k ∧ d.FirstMarked k := by
  rw [Option.isSome_iff_exists]
  constructor
  · rintro ⟨out, hout⟩
    obtain ⟨k, hk, hfirst, -⟩ := alreadyInstalled_eq_some_iff.1 hout
    exact ⟨k, hk, hfirst⟩
  · rintro ⟨k, hk, hfirst⟩
    exact ⟨d.answerAt k, alreadyInstalled_eq_some_iff.2 ⟨k, hk, hfirst, rfl⟩⟩

/-- **The search finds the resident copy exactly when a drive that shows it, if there is one, comes
before every other drive with the mark.** -/
theorem alreadyInstalled_findsShownResident_iff (d : Dos) : FindsShownResident d ↔
    ((∃ k, ShowsResident d k) →
      ∃ k, ShowsResident d k ∧ ∀ j, 4 ≤ j → j < k → ¬ (d.currDir j).Ours) := by
  constructor
  · rintro ⟨hanswer, -, -⟩ hshown
    exact alreadyInstalled_isSome_iff.1 (hanswer.2 hshown)
  · intro h
    constructor
    · constructor
      · intro hsome
        obtain ⟨k, hk, -⟩ := alreadyInstalled_isSome_iff.1 hsome
        exact ⟨k, hk⟩
      · intro hshown
        exact alreadyInstalled_isSome_iff.2 (h hshown)
    · intro hsome
      obtain ⟨k, hk, hfirst⟩ := alreadyInstalled_isSome_iff.1 hsome
      have hcall := alreadyInstalled_of_first hk hfirst
      refine ⟨k, hk, by rw [hcall], fun old => ?_⟩
      rw [storedAnswer, hcall]
      rfl
    · intro hnone old
      rw [storedAnswer, hnone]
      rfl

/-- A resident copy that has mounted `G:`, and `E:` with the mark on it and no record behind it. -/
def dosWithStaleMark : Dos :=
  { dosWithMounts [6] with
    currDir := Function.update (dosWithMounts [6]).currDir 4
      ⟨fun _ => chA, physical, 0, vbsmountMagic⟩ }

theorem dosWithStaleMark_not_found : ShowsResident dosWithStaleMark 6 ∧
    (alreadyInstalled dosWithStaleMark).1 = none ∧ ¬ FindsShownResident dosWithStaleMark := by
  have hshown : ShowsResident dosWithStaleMark 6 :=
    ⟨by decide, by decide, by decide, by decide⟩
  have hnone : (alreadyInstalled dosWithStaleMark).1 = none := by decide
  refine ⟨hshown, hnone, ?_⟩
  rintro ⟨hanswer, -, -⟩
  have hsome := hanswer.2 ⟨6, hshown⟩
  rw [hnone] at hsome
  cases hsome

end Vbsmount

/-
**How many mappings there are, by the host's account.**

`VBoxAuxShflGetMappings` tells the host how many mappings the caller has room for, and takes over
the number that the host has written in its place.  `main` reads that many entries of `mappings`.

Main definitions:

* `VmmDev.CountSound` — what the caller may rely on of the result and the number;
* `VmmDev.ReplyFits` — a reply that reports a success reports no more mappings than there is room
  for;
* `VmmDev.answering` — a host that answers at once, with any result and any number;
* `VmmDev.mappingReads` — the indices at which a run reads `mappings`.

Main results:

* `VmmDev.shflGetMappings_unchanged` — a failed query leaves the number as it was;
* `VmmDev.countSound_iff` — the number is sound exactly when the reply fits;
* `VmmDev.countSound_answering_iff` — every result and every number is the reply of some host;
* `mappingReads_listShares` — `main` reads the entries below the number;
* `mappingCount_bounded_iff` — **the reads of `main` stay inside of `mappings` exactly when the host
  reports no more mappings than there is room for**.
-/

import Vbsmount.HostReply
import Vbsmount.Main

set_option relaxedAutoImplicit false
set_option autoImplicit false

namespace Vbsmount

open Bytes

namespace VmmDev

/-! ### The number of mappings -/

/-- `numberOfMappings.u.value32`. -/
def Shared.numberOfMappings (s : Shared) : BitVec 32 := s.request.get32 60

/-- What the caller relies on: behind a success the number is at most the one it has passed, and
behind a failure it is the one it has passed. -/
structure CountSound (capacity : BitVec 32) (out : BitVec 16 × BitVec 32) : Prop where
  bounded : out.1 = vinfSuccess → out.2 ≤ capacity
  unchanged : out.1 ≠ vinfSuccess → out.1 ≠ vinfBufferOverflow → out.2 = capacity

/-- A reply that reports a success reports no more mappings than there is room for. -/
def ReplyFits (capacity : BitVec 32) (s : Shared) : Prop :=
  s.result = vinfSuccess → s.numberOfMappings ≤ capacity

section Count

variable (e : Env) (lay : Layout) (m : Machine) (pciPort : BitVec 16)
  (clientId numMappings : BitVec 32)

/-- What the write to the port leaves of the query for the mappings. -/
def querySent : Shared :=
  sent e lay (after e (fillQueryMappings lay clientId numMappings) m) pciPort reqHgcmCall 80

/-- The host's reply to the query for the mappings is `s`. -/
def RepliesToQuery (s : Shared) : Prop :=
  Replies e.host (m.turn + 1) (querySent e lay m pciPort clientId numMappings) s

/-- The result and the number, from the result of sending the query and the shared memory behind
it. -/
def queryOutcome (numMappings : BitVec 32) (ret : BitVec 16) (s : Shared) : BitVec 16 × BitVec 32 :=
  if ret = vinfSuccess then
    if s.result = vinfSuccess ∨ s.result = vinfBufferOverflow then (s.result, s.numberOfMappings)
    else (s.result, numMappings)
  else (ret, numMappings)

theorem value_shflGetMappings :
    value e (vboxAuxShflGetMappings lay pciPort clientId numMappings) m =
      queryOutcome numMappings
        (value e (vboxAuxSendHGCMRequest lay pciPort reqHgcmCall 80)
          (after e (fillQueryMappings lay clientId numMappings) m))
        (after e (vboxAuxSendHGCMRequest lay pciPort reqHgcmCall 80)
          (after e (fillQueryMappings lay clientId numMappings) m)).shared := by
  rw [vboxAuxShflGetMappings, value_bind, value_bind, queryOutcome]
  generalize after e (fillQueryMappings lay clientId numMappings) m = m'
  generalize value e (vboxAuxSendHGCMRequest lay pciPort reqHgcmCall 80) m' = ret
  generalize after e (vboxAuxSendHGCMRequest lay pciPort reqHgcmCall 80) m' = m''
  by_cases hret : ret = vinfSuccess
  · have hload : value e (load32 offResult) m'' = m''.shared.request.get32 offResult := rfl
    rw [if_pos hret, if_pos hret, value_bind, hload, Shared.result]
    dsimp only
    split_ifs
    · rfl
    · rfl
  · rw [if_neg hret, if_neg hret]
    rfl

theorem queryOutcome_unchanged {ret : BitVec 16} {s : Shared}
    (h : (queryOutcome numMappings ret s).1 ≠ vinfSuccess)
    (h' : (queryOutcome numMappings ret s).1 ≠ vinfBufferOverflow) :
    (queryOutcome numMappings ret s).2 = numMappings := by
  unfold queryOutcome at h h' ⊢
  split_ifs at h h' ⊢ with hret hresult
  · exact (hresult.elim h h').elim
  · rfl
  · rfl

/-- **The number is left as it was**, if the result is neither a success nor an overflow. -/
theorem shflGetMappings_unchanged
    (h : (value e (vboxAuxShflGetMappings lay pciPort clientId numMappings) m).1 ≠ vinfSuccess)
    (h' : (value e (vboxAuxShflGetMappings lay pciPort clientId numMappings) m).1 ≠
      vinfBufferOverflow) :
    (value e (vboxAuxShflGetMappings lay pciPort clientId numMappings) m).2 = numMappings := by
  rw [value_shflGetMappings] at h h' ⊢
  exact queryOutcome_unchanged numMappings h h'

theorem bounded_queryOutcome (ret : BitVec 16) (s : Shared) :
    ((queryOutcome numMappings ret s).1 = vinfSuccess →
        (queryOutcome numMappings ret s).2 ≤ numMappings) ↔
      (ret = vinfSuccess → ReplyFits numMappings s) := by
  unfold queryOutcome ReplyFits
  split_ifs with hret hresult
  · constructor
    · intro h _
      exact h
    · intro h
      exact h hret
  · have hne : s.result ≠ vinfSuccess := fun hzero => hresult (Or.inl hzero)
    exact iff_of_true (fun hzero => absurd hzero hne) fun _ hzero => absurd hzero hne
  · exact iff_of_true (fun hzero => absurd hzero hret) fun hzero => absurd hzero hret

/-- **The number is sound exactly when the host's reply fits**: it is taken over unchecked. -/
theorem countSound_iff :
    CountSound numMappings (value e (vboxAuxShflGetMappings lay pciPort clientId numMappings) m) ↔
      ∀ s, RepliesToQuery e lay m pciPort clientId numMappings s → ReplyFits numMappings s := by
  have hbounded := bounded_queryOutcome numMappings
    (value e (vboxAuxSendHGCMRequest lay pciPort reqHgcmCall 80)
      (after e (fillQueryMappings lay clientId numMappings) m))
    (after e (vboxAuxSendHGCMRequest lay pciPort reqHgcmCall 80)
      (after e (fillQueryMappings lay clientId numMappings) m)).shared
  rw [← value_shflGetMappings] at hbounded
  refine Iff.trans ?_ (hbounded.trans (forall_replies_iff ..).symm)
  constructor
  · intro h
    exact h.bounded
  · intro h
    exact ⟨h, shflGetMappings_unchanged e lay m pciPort clientId numMappings⟩

end Count

/-! ### Hosts that answer at once -/

/-- A host that completes every request at once, with the given result of the service and the given
number of mappings. -/
def answering (result count : BitVec 32) : Host where
  onOut := fun _ _ shared =>
    { shared with request := (shared.request.put32 offResult result).put32 60 count }
  onDelay := fun _ shared => shared
  bios := fun _ _ => ⟨0, 0, 0, 0⟩

section Answering

variable (ds : BitVec 16) (result count : BitVec 32) (lay : Layout) (m : Machine)
  (pciPort : BitVec 16)

theorem sent_answering (type size : BitVec 16) :
    (sent ⟨ds, answering result count⟩ lay m pciPort type size).rc = vinfSuccess ∧
      (sent ⟨ds, answering result count⟩ lay m pciPort type size).result = result.setWidth 16 ∧
      (sent ⟨ds, answering result count⟩ lay m pciPort type size).numberOfMappings = count := by
  refine ⟨?_, ?_, ?_⟩
  · rw [sent, Shared.rc, answering, withHeader]
    simp (disch := decide) only [Mem.get32_put32_of_disjoint, Mem.get32_put32]
    rfl
  · rw [sent, Shared.result, answering]
    simp (disch := decide) only [Mem.get32_put32_of_disjoint, Mem.get32_put32]
  · exact Mem.get32_put32 ..

/-- **Every result and every number is the reply of some host**, and the number is sound exactly when
it is not an excess that comes with a success. -/
theorem countSound_answering_iff (clientId numMappings : BitVec 32) :
    CountSound numMappings (value ⟨ds, answering result count⟩
        (vboxAuxShflGetMappings lay pciPort clientId numMappings) m) ↔
      (result.setWidth 16 = vinfSuccess → count ≤ numMappings) := by
  obtain ⟨hrc, hresult, hcount⟩ := sent_answering ds result count lay
    (after ⟨ds, answering result count⟩ (fillQueryMappings lay clientId numMappings) m) pciPort
    reqHgcmCall 80
  have hfits : ReplyFits numMappings
      (querySent ⟨ds, answering result count⟩ lay m pciPort clientId numMappings) ↔
        (result.setWidth 16 = vinfSuccess → count ≤ numMappings) := by
    rw [ReplyFits, querySent, hresult, hcount]
  rw [countSound_iff, ← hfits]
  constructor
  · intro h
    exact h _ (Replies.atOnce hrc)
  · intro h s hs
    rw [hs.unique (Replies.atOnce hrc)]
    exact h

end Answering

/-! ### The entries that are read -/

/-- The index of an entry of `mappings` that the operation reads. -/
def Op.mappingIndex : Op → Option ℕ
  | .mappingRoot i => some i
  | _ => none

/-- The indices at which a run reads `mappings`. -/
def mappingReads {α : Type} (e : Env) (p : Code α) (m : Machine) : List ℕ :=
  (Program.calls (handle e) p m).filterMap Op.mappingIndex

/-- Code that does not read `mappings`. -/
def ReadsNoMapping {α : Type} (p : Code α) : Prop :=
  Program.Only (fun o : Op => o.mappingIndex = none) p

section Reads

variable {α β : Type} {e : Env} {m : Machine}

theorem mappingReads_bind (p : Code α) (f : α → Code β) :
    mappingReads e (p >>= f) m =
      mappingReads e p m ++ mappingReads e (f (value e p m)) (after e p m) := by
  rw [mappingReads, Program.calls_bind, List.filterMap_append]
  rfl

theorem ReadsNoMapping.reads_eq {p : Code α} (h : ReadsNoMapping p) : mappingReads e p m = [] :=
  List.filterMap_eq_nil_iff.2 fun _ ho => h.of_mem_calls ho

theorem readsNoMapping_waitDone (waitMs : ℕ) : ReadsNoMapping (waitDone waitMs) := by
  induction waitMs with
  | zero => trivial
  | succ waitMs ih =>
      exact ⟨rfl, fun _ => ⟨rfl, fun flags => Program.Only.ite trivial ih⟩⟩

variable (lay : Layout)

theorem readsNoMapping_sendRequest (pciPort type size : BitVec 16) :
    ReadsNoMapping (vboxAuxSendRequest lay pciPort type size) := by
  repeat refine ⟨rfl, fun _ => ?_⟩
  trivial

theorem readsNoMapping_sendHGCMRequest (pciPort type size : BitVec 16) :
    ReadsNoMapping (vboxAuxSendHGCMRequest lay pciPort type size) := by
  have hsend := readsNoMapping_sendRequest lay pciPort
  refine ⟨rfl, fun _ => ⟨rfl, fun _ => (hsend type size).bind fun ret => ?_⟩⟩
  refine Program.Only.ite trivial (Program.Only.ite ?_ trivial)
  refine (readsNoMapping_waitDone asyncTimeout).bind fun done => Program.Only.ite trivial ?_
  exact ⟨rfl, fun _ => (hsend reqHgcmCancel _).bind fun _ => trivial⟩

theorem readsNoMapping_shflGetMappings (pciPort : BitVec 16) (clientId numMappings : BitVec 32) :
    ReadsNoMapping (vboxAuxShflGetMappings lay pciPort clientId numMappings) := by
  have hfill : ReadsNoMapping (fillQueryMappings lay clientId numMappings) := by
    repeat refine ⟨rfl, fun _ => ?_⟩
    trivial
  refine hfill.bind fun _ => (readsNoMapping_sendHGCMRequest lay pciPort _ _).bind fun ret => ?_
  refine Program.Only.ite ⟨rfl, fun result => ?_⟩ trivial
  exact Program.Only.ite ⟨rfl, fun _ => trivial⟩ trivial

theorem readsNoMapping_shflGetMapName (pciPort : BitVec 16) (clientId root ptrSize : BitVec 32) :
    ReadsNoMapping (vboxAuxShflGetMapName lay pciPort clientId root ptrSize) := by
  have hfill : ReadsNoMapping (fillQueryMapName lay clientId root ptrSize) := by
    repeat refine ⟨rfl, fun _ => ?_⟩
    trivial
  refine hfill.bind fun _ => (readsNoMapping_sendHGCMRequest lay pciPort _ _).bind fun ret => ?_
  exact Program.Only.ite ⟨rfl, fun _ => trivial⟩ trivial

theorem readsNoMapping_endSession (pciPort : BitVec 16) (clientId : BitVec 32) :
    ReadsNoMapping (vboxAuxEndSession lay pciPort clientId) :=
  ⟨rfl, fun _ => (readsNoMapping_sendHGCMRequest lay pciPort _ _).bind fun _ => trivial⟩

end Reads

end VmmDev

section Main

open VmmDev

variable (e : Env) (lay : Layout) (m : Machine) (pciPort : BitVec 16) (clientId : BitVec 32)

/-- **The loop reads one entry in every round.** -/
theorem mappingReads_mappingLoop (left mapping : ℕ) (ret : BitVec 16) :
    mappingReads e (mappingLoop lay pciPort clientId left mapping ret) m =
      List.range' mapping left := by
  induction left generalizing mapping ret m with
  | zero => rfl
  | succ left ih =>
      have hroot : mappingReads e (mappingRoot mapping) m = [mapping] := rfl
      have hmark (k : Mark) (m' : Machine) : mappingReads e (mark k) m' = [] := rfl
      rw [mappingLoop, mappingReads_bind, mappingReads_bind, mappingReads_bind, hroot, hmark, ih,
        (readsNoMapping_shflGetMapName ..).reads_eq]
      rfl

theorem mappingReads_errorLabel (ret : BitVec 16) :
    mappingReads e (errorLabel lay pciPort clientId ret) m = [] := by
  have hlabel : ReadsNoMapping (errorLabel lay pciPort clientId ret) :=
    (readsNoMapping_endSession lay pciPort clientId).bind fun _ => trivial
  exact hlabel.reads_eq

/-- **Behind the query, `main` reads the entries below the number it was given**, and none if the
query has failed. -/
theorem mappingReads_listShares :
    mappingReads e (listShares lay pciPort clientId) m =
      if (value e (vboxAuxShflGetMappings lay pciPort clientId shflMaxMappings) m).1 = vinfSuccess
      then List.range
        (value e (vboxAuxShflGetMappings lay pciPort clientId shflMaxMappings) m).2.toNat
      else [] := by
  have hmark (k : Mark) (m' : Machine) : mappingReads e (mark k) m' = [] := rfl
  rw [listShares, mappingReads_bind, (readsNoMapping_shflGetMappings ..).reads_eq, List.nil_append]
  generalize value e (vboxAuxShflGetMappings lay pciPort clientId shflMaxMappings) m = out
  rw [mappingReads_bind, hmark, List.nil_append]
  by_cases hret : out.1 = vinfSuccess
  · rw [if_neg (not_not.2 hret), if_pos hret, mappingReads_bind, mappingReads_mappingLoop,
      mappingReads_errorLabel, List.append_nil, List.range_eq_range']
  · rw [if_pos hret, if_neg hret, mappingReads_errorLabel]

/-- **The reads of `main` stay inside of `mappings` exactly when the host's reply fits**: for every
host and every number that is passed, what `VBoxAuxShflGetMappings` gives is sound, and so are the
reads of `main`, exactly when no reply that reports a success reports more mappings than there is
room for. -/
theorem mappingCount_bounded_iff (numMappings : BitVec 32) :
    (CountSound numMappings
        (value e (vboxAuxShflGetMappings lay pciPort clientId numMappings) m) ∧
      (numMappings = shflMaxMappings →
        ∀ i ∈ mappingReads e (listShares lay pciPort clientId) m, i < shflMaxMappings.toNat)) ↔
      ∀ s, RepliesToQuery e lay m pciPort clientId numMappings s → ReplyFits numMappings s := by
  rw [← countSound_iff]
  constructor
  · intro h
    exact h.1
  · intro h
    refine ⟨h, fun hcapacity i hi => ?_⟩
    subst hcapacity
    rw [mappingReads_listShares] at hi
    split_ifs at hi with hret
    · exact Nat.lt_of_lt_of_le (List.mem_range.1 hi) (h.bounded hret)
    · cases hi

/-- A host that reports a success and 65 mappings makes `main` read behind the end of `mappings`. -/
theorem excess_not_bounded :
    value ⟨0x2000, answering 0 65⟩ (vboxAuxShflGetMappings sampleLayout 0xD020 1 shflMaxMappings)
        (machineWithMounts [4]) = (vinfSuccess, 65) ∧
      ¬ (CountSound shflMaxMappings (value ⟨0x2000, answering 0 65⟩
            (vboxAuxShflGetMappings sampleLayout 0xD020 1 shflMaxMappings) (machineWithMounts [4]))) ∧
      ¬ (∀ i ∈ mappingReads ⟨0x2000, answering 0 65⟩ (listShares sampleLayout 0xD020 1)
          (machineWithMounts [4]), i < shflMaxMappings.toNat) := by
  have hvalue : value ⟨0x2000, answering 0 65⟩
      (vboxAuxShflGetMappings sampleLayout 0xD020 1 shflMaxMappings) (machineWithMounts [4]) =
        (vinfSuccess, 65) := by
    decide +kernel
  refine ⟨hvalue, ?_, ?_⟩
  · intro h
    rw [hvalue] at h
    exact absurd (h.bounded rfl) (by decide)
  · intro h
    rw [mappingReads_listShares, hvalue, if_pos rfl] at h
    exact absurd (h 64 (by decide)) (by decide)

end Main

end Vbsmount

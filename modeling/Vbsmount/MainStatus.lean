/-
**The exit status of a run of `main`.**

The results of the queries are kept in one variable: the loop over the mappings overwrites it in
every round, and what is returned is the result of the last query.  DOS gets the low byte of it.

Main definitions:

* `mappingResults`, `nameResults` — the results of the queries of a run;
* `Outcome.status` — the exit status;
* `Outcome.Succeeds`, `StatusSound` — the exit status is 0, and it is so only if every query has
  succeeded;
* `Reordered` — in another run the host has listed the shares in another order;
* `LastDecides` — a last result with low byte 0 comes from results that are all 0;
* `Uniform` — the results have one low byte, which is 0 only for successes.

Main results:

* `statusSound_iff` — **the exit status tells of a failure exactly when the last name query does**;
* `status_eq_of_reordered` — the order of uniform results has no influence on it;
* `exists_run` — a run may get any name results, next to another host;
* `main_exitStatus_iff` — **the exit status of `main` tells of every failure, in whatever order the
  shares are listed, exactly when the name results are uniform**.
-/

import Vbsmount.Listing

set_option relaxedAutoImplicit false
set_option autoImplicit false

namespace Vbsmount

open Bytes VmmDev CString

/-! ### The results of the queries -/

/-- The result of `VBoxAuxShflGetMappings`, if the mark is about one. -/
def VmmDev.Mark.mappingResult : Mark → Option (BitVec 16)
  | .gotMappings ret => some ret
  | _ => none

/-- The result of `VBoxAuxShflGetMapName`, if the mark is about one. -/
def VmmDev.Mark.nameResult : Mark → Option (BitVec 16)
  | .gotMapName ret => some ret
  | _ => none

def mappingResults (es : List Event) : List (BitVec 16) :=
  (marks es).filterMap Mark.mappingResult

def nameResults (es : List Event) : List (BitVec 16) := (marks es).filterMap Mark.nameResult

/-- The program returns to DOS with exit status `ERR_SUCCESS`. -/
def Outcome.Succeeds (out : Outcome) : Prop :=
  ∃ ret, out = .returned ret ∧ ret.setWidth 8 = (0 : BitVec 8)

/-- The exit status: DOS gets the low byte of the value. -/
def Outcome.status : Outcome → BitVec 8
  | .exited err => err.setWidth 8
  | .returned ret => ret.setWidth 8

/-- Success is reported only if the query for the mappings and all name queries have succeeded. -/
def StatusSound (es : List Event) (out : Outcome) : Prop :=
  out.Succeeds → mappingResults es = [vinfSuccess] ∧ ∀ r ∈ nameResults es, r = vinfSuccess

/-- Where the low byte of the last result is 0, all results are successes. -/
def LastDecides (rs : List (BitVec 16)) : Prop :=
  ∀ r, rs.getLast? = some r → r.setWidth 8 = (0 : BitVec 8) → ∀ r' ∈ rs, r' = vinfSuccess

/-- Both runs have asked for the shares with the same result, and have got the same results for the
names, in any order. -/
def Reordered (es es' : List Event) : Prop :=
  (∃ ret, mappingResults es = [ret] ∧ mappingResults es' = [ret]) ∧
    (nameResults es).Perm (nameResults es')

/-- The results have the same low byte, and it is 0 only for a success. -/
structure Uniform (rs : List (BitVec 16)) : Prop where
  byte : ∀ r ∈ rs, ∀ r' ∈ rs, r.setWidth 8 = (r'.setWidth 8 : BitVec 8)
  success : ∀ r ∈ rs, r.setWidth 8 = (0 : BitVec 8) → r = vinfSuccess

theorem succeeds_returned_iff {ret : BitVec 16} :
    (Outcome.returned ret).Succeeds ↔ ret.setWidth 8 = (0 : BitVec 8) := by
  constructor
  · intro h
    obtain ⟨ret', hret, hzero⟩ := h
    cases hret
    exact hzero
  · intro h
    exact ⟨ret, rfl, h⟩

section Results

variable {lay : Layout} {ds pciPort ret : BitVec 16} {clientId : BitVec 32} {front : List Mark}
  {rets : List (BitVec 16)} {es : List Event} {out : Outcome}

theorem filterMap_gotMapName (rets : List (BitVec 16)) :
    (rets.map Mark.gotMapName).filterMap Mark.nameResult = rets := by
  induction rets with
  | nil => rfl
  | cons r rets ih => exact congrArg (List.cons r) ih

/-- The results are those that the run was described with. -/
theorem AsksForShares.nameResults_eq
    (h : AsksForShares lay ds front pciPort clientId ret rets es out)
    (hfront : front.filterMap Mark.nameResult = []) : nameResults es = rets := by
  unfold nameResults
  rw [h.recorded.marks, List.filterMap_append, hfront, List.nil_append]
  exact filterMap_gotMapName rets

theorem AsksForShares.mappingResults_eq
    (h : AsksForShares lay ds front pciPort clientId ret rets es out)
    (hfront : front.filterMap Mark.mappingResult = []) : mappingResults es = [ret] := by
  unfold mappingResults
  rw [h.recorded.marks, List.filterMap_append, hfront, List.nil_append]
  simp [Mark.mappingResult]

end Results

/-! ### The last result decides -/

/-- How the results of a run determine its exit status. -/
inductive Decided (es : List Event) (out : Outcome) : Prop
  /-- No query was made, and the run did not succeed. -/
  | early (hmapping : mappingResults es = []) (hname : nameResults es = []) (hout : ¬ out.Succeeds)
  /-- The query for the mappings has failed. -/
  | noMappings (ret : BitVec 16) (hmapping : mappingResults es = [ret]) (hret : ret ≠ vinfSuccess)
      (hname : nameResults es = []) (hout : out = .returned errNoShf)
  /-- There was no share. -/
  | noShares (hmapping : mappingResults es = [vinfSuccess]) (hname : nameResults es = [])
      (hout : out = .returned vinfSuccess)
  /-- The result of the last name query is returned. -/
  | last (ret : BitVec 16) (hmapping : mappingResults es = [vinfSuccess])
      (hname : (nameResults es).getLast? = some ret) (hout : out = .returned ret)

theorem EndsEarly.decided {lay : Layout} {ds : BitVec 16} {es : List Event} {out : Outcome}
    (h : EndsEarly lay ds es out) : Decided es out := by
  refine .early ?_ ?_ ?_
  · unfold mappingResults
    rw [h.recorded.marks]
    rfl
  · unfold nameResults
    rw [h.recorded.marks]
    rfl
  · intro hout
    obtain ⟨ret, hret, hzero⟩ := hout
    exact h.error ret hret hzero

theorem AsksForShares.decided {lay : Layout} {ds pciPort ret : BitVec 16} {clientId : BitVec 32}
    {front : List Mark} {rets : List (BitVec 16)} {es : List Event} {out : Outcome}
    (h : AsksForShares lay ds front pciPort clientId ret rets es out)
    (hmapping : mappingResults es = [ret]) (hname : nameResults es = rets) : Decided es out := by
  have hvalue := h.value
  by_cases hret : ret = vinfSuccess
  · rw [if_pos hret] at hvalue
    rw [hret] at hmapping
    cases hlast : rets.getLast? with
    | none =>
        rw [hlast, hret] at hvalue
        rw [List.getLast?_eq_none_iff] at hlast
        exact .noShares hmapping (hname.trans hlast) hvalue
    | some r =>
        rw [hlast] at hvalue
        refine .last r hmapping ?_ hvalue
        rw [hname, hlast]
  · rw [if_neg hret] at hvalue
    exact .noMappings ret hmapping hret (hname.trans (h.names hret)) hvalue

theorem main_decided (e : Env) (lay : Layout) (inv : Invocation) (shared : Shared) (dos : Dos) :
    Decided (after e (main lay inv) (boot shared dos)).trace
      (value e (main lay inv) (boot shared dos)) := by
  rcases main_cases e lay inv shared dos with
    ⟨-, p, c, ret, rets, -, hasks⟩ | ⟨-, hearly | ⟨p, c, ret, rets, hasks⟩⟩
  · exact hasks.decided (hasks.mappingResults_eq rfl) (hasks.nameResults_eq rfl)
  · exact hearly.decided
  · exact hasks.decided (hasks.mappingResults_eq rfl) (hasks.nameResults_eq rfl)

section Decided

variable {es es' : List Event} {out out' : Outcome}

/-- **The exit status tells of a failure exactly when the last name query does.** -/
theorem statusSound_iff (h : Decided es out) :
    StatusSound es out ↔ LastDecides (nameResults es) := by
  unfold StatusSound LastDecides
  cases h with
  | early _ hname hout =>
      rw [hname]
      exact iff_of_true (fun h => absurd h hout) (fun _ h => by cases h)
  | noMappings _ _ _ hname hout =>
      rw [hname, hout, succeeds_returned_iff]
      exact iff_of_true (fun h => absurd h (by decide)) (fun _ h => by cases h)
  | noShares hmapping hname _ =>
      rw [hname, hmapping]
      exact iff_of_true (fun _ => ⟨rfl, List.forall_mem_nil _⟩) (fun _ h => by cases h)
  | last ret hmapping hname hout =>
      rw [hout, hname, succeeds_returned_iff, hmapping]
      constructor
      · intro h r hr hzero
        cases hr
        exact (h hzero).2
      · intro h hzero
        exact ⟨rfl, h ret rfl hzero⟩

/-- A run that has got a name has got the mappings. -/
theorem Decided.mapping_of_mem (h : Decided es out) {r : BitVec 16} (hr : r ∈ nameResults es) :
    mappingResults es = [vinfSuccess] := by
  cases h with
  | last _ hmapping _ _ => exact hmapping
  | noShares hmapping _ _ => exact hmapping
  | early _ hname _ =>
      rw [hname] at hr
      cases hr
  | noMappings _ _ _ hname _ =>
      rw [hname] at hr
      cases hr

/-- The value of a run that has asked for the shares. -/
theorem Decided.value_eq (h : Decided es out) {ret : BitVec 16}
    (hmapping : mappingResults es = [ret]) : out = .returned
      (if ret = vinfSuccess then (nameResults es).getLast?.getD vinfSuccess else errNoShf) := by
  cases h with
  | early hnone _ _ =>
      rw [hnone] at hmapping
      cases hmapping
  | noMappings ret' hsome hret _ hout =>
      rw [hsome] at hmapping
      obtain rfl := List.singleton_inj.1 hmapping
      rw [if_neg hret, hout]
  | noShares hsome hname hout =>
      rw [hsome] at hmapping
      obtain rfl := List.singleton_inj.1 hmapping
      rw [if_pos rfl, hname, hout]
      rfl
  | last r hsome hname hout =>
      rw [hsome] at hmapping
      obtain rfl := List.singleton_inj.1 hmapping
      rw [if_pos rfl, hname, hout, Option.getD_some]

end Decided

/-! ### The order of the shares -/

section Order

variable {rs rs' : List (BitVec 16)}

/-- The last of uniform results has the low byte of the others. -/
theorem Uniform.last_byte (h : Uniform rs) (hperm : rs.Perm rs') (ret : BitVec 16) :
    (rs.getLast?.getD ret).setWidth 8 = ((rs'.getLast?.getD ret).setWidth 8 : BitVec 8) := by
  cases hlast : rs.getLast? with
  | none =>
      obtain rfl := List.getLast?_eq_none_iff.1 hlast
      rw [← hperm.nil_eq]
      rfl
  | some r =>
      cases hlast' : rs'.getLast? with
      | none =>
          obtain rfl := List.getLast?_eq_none_iff.1 hlast'
          rw [hperm.eq_nil] at hlast
          cases hlast
      | some r' =>
          exact h.byte r (List.mem_of_getLast? hlast) r'
            (hperm.mem_iff.2 (List.mem_of_getLast? hlast'))

theorem Uniform.lastDecides (h : Uniform rs) : LastDecides rs := by
  intro r hr hzero r' hr'
  exact h.success r' hr' ((h.byte r' hr' r (List.mem_of_getLast? hr)).trans hzero)

/-- Results that have the low byte of the last one are uniform, if the last one decides. -/
theorem LastDecides.uniform (h : LastDecides rs)
    (hbyte : ∀ r ∈ rs, ∀ last, rs.getLast? = some last →
      last.setWidth 8 = (r.setWidth 8 : BitVec 8)) : Uniform rs := by
  cases hlast : rs.getLast? with
  | none =>
      obtain rfl := List.getLast?_eq_none_iff.1 hlast
      exact ⟨List.forall_mem_nil _, List.forall_mem_nil _⟩
  | some last =>
      refine ⟨fun r hr r' hr' => ?_, fun r hr hzero => ?_⟩
      · exact (hbyte r hr last hlast).symm.trans (hbyte r' hr' last hlast)
      · exact h last hlast ((hbyte r hr last hlast).trans hzero) r hr

/-- **The order of uniform results has no influence on the exit status.** -/
theorem status_eq_of_reordered {es es' : List Event} {out out' : Outcome} (h : Decided es out)
    (h' : Decided es' out') (hreordered : Reordered es es') (huniform : Uniform (nameResults es)) :
    out.status = out'.status := by
  obtain ⟨⟨ret, hmapping, hmapping'⟩, hperm⟩ := hreordered
  rw [h.value_eq hmapping, h'.value_eq hmapping']
  split_ifs
  · exact huniform.last_byte hperm vinfSuccess
  · rfl

end Order

/-! ### Runs with given results -/

/-- The run asks for the shares of session `clientId`, next to a host that answers. -/
def AsksNextTo (inv : Invocation) (dos : Dos) (clientId : BitVec 32) : Prop :=
  inv.Searches ∧ ((∃ port, (search dos).1 = some (port, clientId)) ∨ ((search dos).1 = none ∧
    (getOptions inv.argString Options.start).2.uninstall = 0 ∧ inv.installationCheck ≠ 1))

/-- A host with as many shares as there are results, that answers the name queries with them. -/
def answering (clientId : BitVec 32) (rs : List (BitVec 16)) : Host :=
  sharing clientId ((List.range rs.length).map (BitVec.ofNat 32)) fun root => rs.getD root.toNat 0

/-- The results for the shares of that host. -/
theorem map_answering {rs : List (BitVec 16)} (hlength : rs.length < 2 ^ 32) :
    ((List.range rs.length).map (BitVec.ofNat 32)).map (fun root => rs.getD root.toNat 0) = rs := by
  refine List.ext_getElem (by simp) fun i hi hi' => ?_
  have hmod : i % 2 ^ 32 = i := Nat.mod_eq_of_lt (hi'.trans hlength)
  rw [List.getElem_map, List.getElem_map, List.getElem_range, BitVec.toNat_ofNat, hmod]
  exact (List.getElem_eq_getD 0).symm

section Given

variable {e : Env} {inv : Invocation} {dos : Dos} {clientId : BitVec 32}
  {roots : List (BitVec 32)} {result : BitVec 32 → BitVec 16}

/-- The results that are marked. -/
theorem results_of_marks {es : List Event} (front : List Mark) {ret : BitVec 16}
    {rets : List (BitVec 16)}
    (hmarks : marks es = front ++ .gotMappings ret :: rets.map .gotMapName)
    (hmapping : front.filterMap Mark.mappingResult = [])
    (hname : front.filterMap Mark.nameResult = []) :
    mappingResults es = [ret] ∧ nameResults es = rets := by
  unfold mappingResults nameResults
  rw [hmarks, List.filterMap_append, hmapping, List.filterMap_append, hname]
  refine ⟨?_, filterMap_gotMapName rets⟩
  simp [Mark.mappingResult]

/-- **A run gets the results that the host has for the shares.** -/
theorem main_results (h : Offers e.host clientId roots result) (hasks : AsksNextTo inv dos clientId)
    (lay : Layout) (shared : Shared) :
    mappingResults (after e (main lay inv) (boot shared dos)).trace = [vinfSuccess] ∧
      nameResults (after e (main lay inv) (boot shared dos)).trace = roots.map result := by
  obtain ⟨hsearches, hways⟩ := hasks
  rw [after, run_main_of_searches e lay hsearches, ← after]
  rcases hways with ⟨port, hfound⟩ | ⟨hfound, hmount, hallowed⟩
  · rw [hfound]
    obtain ⟨-, hmarks, -⟩ := listShares_lists lay port (m := boot shared (search dos).2) h
    exact results_of_marks [] hmarks rfl rfl
  · rw [hfound]
    obtain ⟨-, port, -, hmarks, -⟩ :=
      openSession_lists lay h hmount hallowed (m := boot shared (search dos).2) rfl
    exact results_of_marks [.sessionOpened port clientId] hmarks rfl rfl

end Given

section Reorder

variable (e : Env) (lay : Layout) (inv : Invocation) (shared : Shared) (dos : Dos)

/-- A run that gets results has asked for the shares, and asks for them next to any host that
answers. -/
theorem asksNextTo_of_nameResults
    (hne : nameResults (after e (main lay inv) (boot shared dos)).trace ≠ []) :
    ∃ clientId, AsksNextTo inv dos clientId := by
  by_cases hsearches : inv.Searches
  · cases hfound : (search dos).1 with
    | some session => exact ⟨session.2, hsearches, .inl ⟨session.1, hfound⟩⟩
    | none =>
        rw [after, run_main_of_searches e lay hsearches, hfound, ← after] at hne
        refine ⟨0, hsearches, .inr ⟨hfound, ?_, ?_⟩⟩
        · by_contra hmount
          rw [openSession, if_pos hmount] at hne
          exact hne rfl
        · intro hcheck
          rw [openSession, if_pos hcheck] at hne
          split_ifs at hne
          · exact hne rfl
          · exact hne rfl
  · obtain ⟨out, hmain⟩ := main_of_not_searches lay hsearches
    rw [hmain] at hne
    exact absurd rfl hne

theorem length_nameResults :
    (nameResults (after e (main lay inv) (boot shared dos)).trace).length < 2 ^ 32 := by
  rcases main_cases e lay inv shared dos with
    ⟨-, p, c, ret, rets, -, hasks⟩ | ⟨-, hearly | ⟨p, c, ret, rets, hasks⟩⟩
  · rw [hasks.nameResults_eq rfl]
    exact hasks.count
  · rw [nameResults, hearly.recorded.marks]
    decide
  · rw [hasks.nameResults_eq rfl]
    exact hasks.count

/-- **A run may get its results in any order**, next to another host. -/
theorem exists_run {rs : List (BitVec 16)}
    (hne : nameResults (after e (main lay inv) (boot shared dos)).trace ≠ [])
    (hperm : (nameResults (after e (main lay inv) (boot shared dos)).trace).Perm rs) :
    ∃ e', mappingResults (after e' (main lay inv) (boot shared dos)).trace = [vinfSuccess] ∧
      nameResults (after e' (main lay inv) (boot shared dos)).trace = rs := by
  obtain ⟨clientId, hasks⟩ := asksNextTo_of_nameResults e lay inv shared dos hne
  have hlength : rs.length < 2 ^ 32 := by
    rw [← hperm.length_eq]
    exact length_nameResults e lay inv shared dos
  have hoffers : Offers (answering clientId rs) clientId _ _ :=
    offers_sharing clientId _ _ (by rwa [List.length_map, List.length_range])
  obtain ⟨hmapping, hname⟩ :=
    main_results (e := ⟨e.ds, answering clientId rs⟩) hoffers hasks lay shared
  rw [map_answering hlength] at hname
  exact ⟨⟨e.ds, answering clientId rs⟩, hmapping, hname⟩

/-- **The exit status of `main`** tells of every failure, and is the same next to a host that lists
the shares in another order, exactly when the name results have one low byte, which is 0 only if
they are all successes. -/
theorem main_exitStatus_iff :
    (StatusSound (after e (main lay inv) (boot shared dos)).trace
        (value e (main lay inv) (boot shared dos)) ∧
      ∀ e', Reordered (after e (main lay inv) (boot shared dos)).trace
          (after e' (main lay inv) (boot shared dos)).trace →
        (value e (main lay inv) (boot shared dos)).status =
          (value e' (main lay inv) (boot shared dos)).status) ↔
      Uniform (nameResults (after e (main lay inv) (boot shared dos)).trace) := by
  have hdecided := main_decided e lay inv shared dos
  constructor
  · intro h
    obtain ⟨hsound, horder⟩ := h
    refine ((statusSound_iff hdecided).1 hsound).uniform fun r hr last hlast => ?_
    -- the run with `r` as its last result
    have hperm := (List.perm_cons_erase hr).trans
      (List.perm_append_singleton r _).symm
    obtain ⟨e', hmapping', hname'⟩ :=
      exists_run e lay inv shared dos (List.ne_nil_of_mem hr) hperm
    have hmapping := hdecided.mapping_of_mem hr
    have hreordered : Reordered _ _ :=
      ⟨⟨vinfSuccess, hmapping, hmapping'⟩, by rw [hname']; exact hperm⟩
    have hstatus := horder e' hreordered
    rw [hdecided.value_eq hmapping, if_pos rfl, hlast, Option.getD_some,
      (main_decided e' lay inv shared dos).value_eq hmapping', if_pos rfl, hname',
      List.getLast?_concat, Option.getD_some] at hstatus
    exact hstatus
  · intro huniform
    refine ⟨(statusSound_iff hdecided).2 huniform.lastDecides, fun e' hreordered => ?_⟩
    exact status_eq_of_reordered hdecided (main_decided e' lay inv shared dos) hreordered huniform

end Reorder

/-! ### Two shares -/

/-- A host with two shares, that answers the name queries with the given results. -/
def twoShares (r₁ r₂ : BitVec 32) : Env where
  ds := 0x2000
  host := {
    onOut := fun turn _ shared =>
      -- three calls of the BIOS, three reports and the connect come before the queries
      if turn = 7 then { shared with request := shared.request.put32 60 2 }
      else if turn = 8 then { shared with request := shared.request.put32 offResult r₁ }
      else if turn = 9 then { shared with request := shared.request.put32 offResult r₂ }
      else shared
    onDelay := fun _ shared => shared
    bios := fun _ _ => ⟨0, 0, 0xD020, 0⟩ }

/-- The run of a plain command line next to that host. -/
def twoSharesRun (r₁ r₂ : BitVec 32) : Outcome × List (BitVec 16) :=
  (value (twoShares r₁ r₂) (main sampleLayout plainInvocation)
      (boot ⟨fun _ => 0, fun _ => 0⟩ (dosWithMounts [])),
    nameResults (after (twoShares r₁ r₂) (main sampleLayout plainInvocation)
      (boot ⟨fun _ => 0, fun _ => 0⟩ (dosWithMounts []))).trace)

/-- A failure of the first of two name queries goes unnoticed; the same failure of the second one is
returned. -/
theorem firstFailure_forgotten :
    twoSharesRun 0xFFFFFF97 0 = (.returned 0, [0xFF97, 0]) ∧
      twoSharesRun 0 0xFFFFFF97 = (.returned 0xFF97, [0, 0xFF97]) := by
  constructor
  · decide +kernel
  · decide +kernel

theorem firstFailure_not_statusSound :
    ¬ StatusSound (after (twoShares 0xFFFFFF97 0) (main sampleLayout plainInvocation)
        (boot ⟨fun _ => 0, fun _ => 0⟩ (dosWithMounts []))).trace
      (value (twoShares 0xFFFFFF97 0) (main sampleLayout plainInvocation)
        (boot ⟨fun _ => 0, fun _ => 0⟩ (dosWithMounts []))) := by
  obtain ⟨hvalue, hnames⟩ := Prod.mk.inj firstFailure_forgotten.1
  intro hsound
  obtain ⟨-, hall⟩ := hsound ⟨0, hvalue, rfl⟩
  rw [hnames] at hall
  have hfirst := hall 0xFF97 (List.mem_cons_self ..)
  exact absurd hfirst (by decide)

end Vbsmount

/-
**What a run of `main` prints.**

The messages of a run do not change what it does.  Which ones are printed depends on the switches,
on what the host has reported, and on how the run ends: every error has its message, except for a
failed query for the shares.  The texts are those of the catalogue that was found, or the program's
own.

Main definitions:

* `Says` — what a function prints, next to the one that prints nothing;
* `usage`, `banner`, `versionLines`, `endMessage` — what is printed in the different places;
* `hostBlock` — the request block with the host's account of its version;
* `prints` — what a run prints, from its switches and from how it ends.

Main results:

* `says_initVirtual`, `says_listShares`, `says_openSession` — what the parts of `main` print;
* `runAloud_eq`, `main_console` — **the messages change nothing about a run, and are `prints`**;
* `main_silent_iff` — **only `/QQ` silences a run**;
* `main_complains_iff` — **the errors with a message**;
* `main_texts` — **the texts are those of the catalogue that is found first**.
-/

import Vbsmount.Console
import Vbsmount.KittenSession
import Vbsmount.MainStatus

set_option relaxedAutoImplicit false
set_option autoImplicit false

namespace Vbsmount

open Bytes VmmDev CString

/-! ### What a function prints -/

section Says

variable {α β : Type} {e : Env} {v : Verbosity} {k : Kitten} {m : Machine}

variable (e v k m) in
/-- Next to `q`, the code prints `ps`. -/
def Says (p : Aloud α) (q : Code α) (ps : List Printed) : Prop :=
  ∀ qs, Program.Aside (handle e) p q m ⟨v, k, qs⟩ ⟨v, k, qs ++ ps⟩

/-- What is printed at a level. -/
def atLevel (v level : Verbosity) (ps : List Printed) : List Printed :=
  if v.Reaches level then ps else []

theorem atLevel_nil (v level : Verbosity) : atLevel v level [] = [] := by
  rw [atLevel, ite_self]

theorem says_lift (q : Code α) : Says e v k m (liftM q) q [] := by
  intro qs
  rw [List.append_nil]
  exact Program.Aside.lift q m _

theorem says_ret (a : α) : Says e v k m (pure a) (pure a) [] := by
  intro qs
  rw [List.append_nil]
  exact Program.Aside.ret a m _

/-- **A sequence prints what its parts print.** -/
theorem Says.bind {p : Aloud α} {q : Code α} {f : α → Aloud β} {g : α → Code β}
    {ps ps' : List Printed} (hp : Says e v k m p q ps)
    (hf : Says e v k (after e q m) (f (value e q m)) (g (value e q m)) ps') :
    Says e v k m (p >>= f) (q >>= g) (ps ++ ps') := by
  intro qs
  rw [← List.append_assoc]
  exact (hp qs).bind (hf (qs ++ ps))

/-- Code that prints nothing, in front. -/
theorem says_lift_bind {q : Code α} {f : α → Aloud β} {g : α → Code β} {ps : List Printed}
    (hf : Says e v k (after e q m) (f (value e q m)) (g (value e q m)) ps) :
    Says e v k m (liftM q >>= f) (q >>= g) ps :=
  (says_lift q).bind hf

theorem Says.map {p : Aloud α} {q : Code α} {ps : List Printed} (hp : Says e v k m p q ps)
    (f : α → β) : Says e v k m (p >>= fun a => pure (f a)) (q >>= fun a => pure (f a)) ps := by
  have h := Says.bind (f := fun a => pure (f a)) (g := fun a => pure (f a)) hp (says_ret _)
  rwa [List.append_nil] at h

/-- A message in front. -/
theorem Says.before {p : Aloud Unit} {f : Unit → Aloud β} {q : Code β} {ps ps' : List Printed}
    (hp : Says e v k m p (Program.ret ()) ps) (hf : Says e v k m (f ()) q ps') :
    Says e v k m (p >>= f) q (ps ++ ps') :=
  Says.bind (g := fun _ => q) hp hf

/-- A message, and the end. -/
theorem Says.before_ret {p : Aloud Unit} {ps : List Printed}
    (hp : Says e v k m p (Program.ret ()) ps) (a : α) :
    Says e v k m (p >>= fun _ => pure a) (pure a) ps :=
  hp.map fun _ => a

theorem Says.before_lift {p : Aloud Unit} {ps : List Printed}
    (hp : Says e v k m p (Program.ret ()) ps) (q : Code β) :
    Says e v k m (p >>= fun _ => liftM q) q ps := by
  have h := Says.before (f := fun _ => liftM q) hp (says_lift q)
  rwa [List.append_nil] at h

theorem says_verbFputs (level : Verbosity) (msg : Message) (stream : Stream) :
    Says e v k m (verbFputs level msg stream) (Program.ret ())
      (atLevel v level [.fputs (msg.got k) stream]) := by
  intro qs
  refine Program.Aside.get ?_
  rw [atLevel]
  split_ifs
  · exact Program.Aside.modify _ m _
  · rw [List.append_nil]
    exact Program.Aside.ret () m _

/-- A message with arguments that are only read. -/
theorem says_verbFprintf (level : Verbosity) (stream : Stream) (format : Kitten → Text)
    {args : Code (List Arg)} (hargs : after e args m = m) :
    Says e v k m (verbFprintf level stream format args) (Program.ret ())
      (atLevel v level [.fprintf stream (format k) (value e args m)]) := by
  intro qs
  refine Program.Aside.get ?_
  rw [atLevel]
  split_ifs
  · have hprint : Program.Aside (handle e) (liftM args >>= fun args =>
        modify fun c : Console => c.print fun k => .fprintf stream (format k) args)
          (args >>= fun _ => Program.ret ()) m ⟨v, k, qs⟩
          ⟨v, k, qs ++ [.fprintf stream (format k) (value e args m)]⟩ :=
      (Program.Aside.lift args m _).bind (Program.Aside.modify _ _ _)
    rw [Program.Aside, Program.run_bind, ← after, hargs] at hprint
    exact hprint
  · rw [List.append_nil]
    exact Program.Aside.ret () m _

end Says

/-! ### The parts of `main` -/

/-- The usage. -/
def usage (v : Verbosity) (k : Kitten) : List Printed :=
  atLevel v .normal
      [.fprintf .stderr .myName [.str vbsmount, .num versionMajor, .num versionMinor],
        .fprintf .stderr .copyright []] ++
    atLevel v .quiet
      [.fputs (msgHelp1.got k) .stderr, .fprintf .stderr (msgHelp2.got k) [.str vbsmount],
        .fprintf .stderr (msgHelp3.got k) [.str vbsmount], .fputs (msgHelp4.got k) .stderr,
        .fputs (msgHelp5.got k) .stderr, .fputs (msgHelp6.got k) .stderr,
        .fputs (msgHelp7.got k) .stderr, .fputs (msgHelp8.got k) .stderr,
        .fputs (msgHelp9.got k) .stderr, .fputs (msgHelp19.got k) .stderr]

/-- The first messages of a run. -/
def banner (v : Verbosity) : List Printed :=
  atLevel v .quiet
      [.fprintf .stderr .myName [.str vbsmount, .num versionMajor, .num versionMinor]] ++
    atLevel v .normal [.fprintf .stdout .copyright []]

/-- What the host has reported in the request block. -/
def versionInfo (v : Verbosity) (k : Kitten) (b : Mem) : List Printed :=
  atLevel v .verbose [.fprintf .stdout (msgInfoVbxvers.got k)
    [.num ((b.get32 24).extractLsb' 0 16).toNat, .num ((b.get32 24).extractLsb' 16 16).toNat,
      .num (b.get32 28).toNat, .num (b.get32 32).toNat]]

theorem usage_eq_nil_iff (v : Verbosity) (k : Kitten) : usage v k = [] ↔ v = .silent := by
  cases v <;> simp [usage, atLevel, Verbosity.Reaches, Verbosity.value]

theorem banner_eq_nil_iff (v : Verbosity) : banner v = [] ↔ v = .silent := by
  cases v <;> simp [banner, atLevel, Verbosity.Reaches, Verbosity.value]

section Parts

variable {e : Env} (lay : Layout) {v : Verbosity} {k : Kitten} {m : Machine}

theorem says_printUsageAndExit (err : BitVec 16) :
    Says e v k m (printUsageAndExit err) (Program.ret (.exited err)) (usage v k) := by
  have h : Says e v k m (printUsageAndExit err) (Program.ret (.exited err)) _ :=
    (says_verbFprintf _ _ _ rfl).before <| (says_verbFprintf _ _ _ rfl).before <|
    (says_verbFputs _ _ _).before <| (says_verbFprintf _ _ _ rfl).before <|
    (says_verbFprintf _ _ _ rfl).before <| (says_verbFputs _ _ _).before <|
    (says_verbFputs _ _ _).before <| (says_verbFputs _ _ _).before <|
    (says_verbFputs _ _ _).before <| (says_verbFputs _ _ _).before <|
    (says_verbFputs _ _ _).before <| (says_verbFputs _ _ _).before <| says_ret _
  convert h using 1
  cases v <;> rfl

/-- The request block behind code that has succeeded. -/
def okBlock {α : Type} (e : Env) (p : Code α) (ret : α → BitVec 16) (m : Machine) : Option Mem :=
  if ret (value e p m) = ok then some (after e p m).shared.request else none

theorem okBlock_bind {α β : Type} (p : Code β) (f : β → Code α) (ret : α → BitVec 16) :
    okBlock e (p >>= f) ret m = okBlock e (f (value e p m)) ret (after e p m) := by
  rw [okBlock, value_bind, after_bind, okBlock]

/-- The version, if the host has told it. -/
def versionLines (v : Verbosity) (k : Kitten) (b : Option Mem) : List Printed :=
  b.elim [] (versionInfo v k)

theorem versionLines_silent (k : Kitten) (b : Option Mem) : versionLines .silent k b = [] := by
  cases b <;> rfl

theorem says_getVersion (pciPort : BitVec 16) :
    Says e v k m (vboxAuxGetVersionAloud lay pciPort) (vboxAuxGetVersion lay pciPort)
      (versionLines v k (okBlock e (vboxAuxGetVersion lay pciPort) id m)) := by
  rw [vboxAuxGetVersion, okBlock_bind]
  refine says_lift_bind ?_
  generalize value e (vboxAuxSendRequest lay pciPort reqGetHostVersion 40) m = ret
  generalize after e (vboxAuxSendRequest lay pciPort reqGetHostVersion 40) m = m'
  by_cases hret : ret = vinfSuccess
  · have hinfo : Says e v k m' (verbFprintf .verbose .stdout msgInfoVbxvers.got hostVersion) _
        (versionInfo v k m'.shared.request) := says_verbFprintf _ _ _ rfl
    rw [if_pos hret, if_pos hret]
    exact hinfo.before_ret ok
  · rw [if_neg hret, if_neg hret]
    exact says_ret fail

theorem says_initVirtual (pciPort : BitVec 16) :
    Says e v k m (vboxAuxInitVirtualAloud lay pciPort) (vboxAuxInitVirtual lay pciPort)
      (versionLines v k (okBlock e (vboxAuxInitVirtual lay pciPort) Prod.fst m)) := by
  rw [vboxAuxInitVirtual, okBlock_bind, okBlock_bind]
  refine says_lift_bind (says_lift_bind ?_)
  generalize value e (vboxAuxVBoxBackdoorInit lay pciPort) (after e segread m) = out
  generalize after e (vboxAuxVBoxBackdoorInit lay pciPort) (after e segread m) = m'
  obtain ⟨ret, pciPort⟩ := out
  dsimp only
  by_cases hret : ret ≠ 0
  · have hbad : ¬ ret = ok := hret
    have hnone : okBlock e (pure (ret, pciPort)) Prod.fst m' = none := if_neg hbad
    rw [if_pos hret, if_pos hret, hnone]
    exact says_ret (ret, pciPort)
  · rw [if_neg hret, if_neg hret, okBlock_bind]
    exact (says_getVersion lay pciPort).map fun ret => (ret, pciPort)

end Parts

/-! ### Errors and their messages -/

/-- `ERR_…`, as a run returns it or exits with it. -/
def Outcome.err : Outcome → BitVec 16
  | .exited err => err
  | .returned err => err

/-- The message about an error behind which nothing is asked for. -/
def errorMessage (inv : Invocation) (osminor : BitVec 8) (k : Kitten) (err : BitVec 16) : Printed :=
  if err = errWrongOs then
    .fprintf .stderr (msgErrorWrongos.got k) [.num inv.osmajor.toNat, .num osminor.toNat]
  else if err = errNoVirt then .fputs (msgErrorNovirt.got k) .stderr
  else if err = errSystem then .fputs (msgErrorLol.got k) .stderr
  else if err = errNotInst then .fputs (msgErrorNotinstalled.got k) .stderr
  else if err = errNoAllwd then .fputs (msgErrorRedirNotAllowed.got k) .stderr
  else .fputs (msgErrorNoshf.got k) .stderr

/-- The message at the end of a run, from the results of the query for the shares. -/
def endMessage (inv : Invocation) (osminor : BitVec 8) (k : Kitten) (results : List (BitVec 16))
    (out : Outcome) : Option Printed :=
  match results with
  | [] => some (errorMessage inv osminor k out.err)
  | ret :: _ =>
      if ret = vinfSuccess ∧ out ≠ .returned errSuccess then
        some (.fputs (msgErrorNoshf.got k) .stderr)
      else none

section Ends

variable {e : Env} (lay : Layout) {v : Verbosity} {k : Kitten} {m : Machine}

theorem mappingResults_append (es fs : List Event) :
    mappingResults (es ++ fs) = mappingResults es ++ mappingResults fs := by
  rw [mappingResults, marks, List.filterMap_append, List.filterMap_append]
  rfl

theorem mappingResults_recorded {ds : BitVec 16} {es : List Event} {ms : List Mark}
    {cs : List (BitVec 16 × BitVec 32)} (h : Recorded lay ds es ms cs) :
    mappingResults es = ms.filterMap Mark.mappingResult := by
  rw [mappingResults, h.marks]

/-- The end of the session asks for nothing. -/
theorem mappingResults_errorLabel (pciPort : BitVec 16) (clientId : BitVec 32) (ret : BitVec 16) :
    mappingResults (after e (errorLabel lay pciPort clientId ret) m).trace =
      mappingResults m.trace := by
  obtain ⟨es, hes, hrec, -⟩ := endSession_spec e lay m pciPort clientId
  rw [after_errorLabel, hes.trace, mappingResults_append, mappingResults_recorded lay hrec]
  exact List.append_nil _

/-- The one result of the query for the shares. -/
theorem mappingResults_listShares (pciPort : BitVec 16) (clientId : BitVec 32) :
    mappingResults (after e (listShares lay pciPort clientId) m).trace = mappingResults m.trace ++
      [(value e (vboxAuxShflGetMappings lay pciPort clientId shflMaxMappings) m).1] := by
  obtain ⟨es, hes, hrec⟩ := shflGetMappings_spec e lay m pciPort clientId shflMaxMappings
  rw [listShares, after_bind]
  generalize value e (vboxAuxShflGetMappings lay pciPort clientId shflMaxMappings) m = out
  generalize after e (vboxAuxShflGetMappings lay pciPort clientId shflMaxMappings) m = m₁ at hes
  obtain ⟨ret, numMappings⟩ := out
  dsimp only
  have hmark := emits_mark e m₁ (.gotMappings ret)
  have hstart : mappingResults (after e (mark (.gotMappings ret)) m₁).trace =
      mappingResults m.trace ++ [ret] := by
    rw [hmark.trace, mappingResults_append, hes.trace, mappingResults_append,
      mappingResults_recorded lay hrec, List.filterMap_nil, List.append_nil]
    rfl
  rw [after_bind, ← hstart]
  generalize after e (mark (.gotMappings ret)) m₁ = m₂
  split_ifs
  · exact mappingResults_errorLabel lay pciPort clientId errNoShf
  · obtain ⟨fs, rets, hfs, hrec', -, -⟩ :=
      mappingLoop_spec e lay m₂ pciPort clientId numMappings.toNat 0 ret
    have hnone : (rets.map Mark.gotMapName).filterMap Mark.mappingResult = [] :=
      List.filterMap_eq_nil_iff.2 fun k hk => by
        obtain ⟨r, -, rfl⟩ := List.mem_map.1 hk
        rfl
    rw [after_bind, mappingResults_errorLabel, hfs.trace, mappingResults_append,
      mappingResults_recorded lay hrec', hnone, List.append_nil]

/-- **The list of the shares**: a failed query for them has no message. -/
theorem says_listShares (inv : Invocation) (osminor : BitVec 8) (pciPort : BitVec 16)
    (clientId : BitVec 32) (hm : mappingResults m.trace = []) :
    Says e v k m (listSharesAloud lay pciPort clientId) (listShares lay pciPort clientId)
      (atLevel v .quiet (endMessage inv osminor k
        (mappingResults (after e (listShares lay pciPort clientId) m).trace)
        (value e (listShares lay pciPort clientId) m)).toList) := by
  rw [mappingResults_listShares, hm, List.nil_append, endMessage]
  rw [listShares, value_bind, value_bind, listSharesAloud]
  refine says_lift_bind ?_
  generalize value e (vboxAuxShflGetMappings lay pciPort clientId shflMaxMappings) m = out
  generalize after e (vboxAuxShflGetMappings lay pciPort clientId shflMaxMappings) m = m₁
  obtain ⟨ret, numMappings⟩ := out
  refine says_lift_bind ?_
  dsimp only
  generalize after e (mark (.gotMappings ret)) m₁ = m₂
  by_cases hret : ret = vinfSuccess
  · rw [if_neg (not_not.2 hret), if_neg (not_not.2 hret), value_bind, value_errorLabel]
    refine says_lift_bind ?_
    generalize value e (mappingLoop lay pciPort clientId numMappings.toNat 0 ret) m₂ = last
    generalize after e (mappingLoop lay pciPort clientId numMappings.toNat 0 ret) m₂ = m₃
    by_cases hlast : last = errSuccess
    · have hquiet : ¬ (ret = vinfSuccess ∧ Outcome.returned last ≠ .returned errSuccess) :=
        fun h => h.2 (congrArg _ hlast)
      rw [if_neg (not_not.2 hlast), if_neg hquiet, Option.toList_none, atLevel_nil]
      exact says_lift _
    · have hloud : ret = vinfSuccess ∧ Outcome.returned last ≠ .returned errSuccess :=
        ⟨hret, fun h => hlast (Outcome.returned.inj h)⟩
      rw [if_pos hlast, if_pos hloud]
      exact (says_verbFputs .quiet msgErrorNoshf .stderr).before_lift _
  · rw [if_pos hret, if_pos hret, if_neg fun h => hret h.1, Option.toList_none, atLevel_nil]
    exact says_lift _

theorem mappingResults_initVirtual (pciPort : BitVec 16) :
    mappingResults (after e (vboxAuxInitVirtual lay pciPort) m).trace = mappingResults m.trace := by
  obtain ⟨es, htrace, -, -, hreports⟩ := initVirtual_spec e lay m pciPort
  rw [htrace, mappingResults_append, mappingResults_recorded lay (recorded_of_reports hreports)]
  exact List.append_nil _

/-- An error before the query for the shares. -/
theorem says_error (inv : Invocation) (osminor : BitVec 8) (msg : Message) (err : BitVec 16)
    (hm : mappingResults m.trace = [])
    (herr : errorMessage inv osminor k err = .fputs (msg.got k) .stderr) :
    Says e v k m (verbFputs .quiet msg .stderr >>= fun _ => pure (Outcome.returned err))
      (pure (.returned err)) (atLevel v .quiet (endMessage inv osminor k
        (mappingResults m.trace) (.returned err)).toList) := by
  rw [hm, endMessage, Outcome.err, herr]
  exact (says_verbFputs .quiet msg .stderr).before_ret _

/-- Where the driver is not installed. -/
theorem says_openSession (inv : Invocation) (osminor : BitVec 8) (uninstall : BitVec 16)
    (hm : mappingResults m.trace = []) :
    Says e v k m (openSessionAloud lay inv uninstall) (openSession lay inv uninstall)
      (versionLines v k (if uninstall = 0 ∧ inv.installationCheck ≠ 1 then
          okBlock e (vboxAuxInitVirtual lay inv.pciPort) Prod.fst m
        else none) ++
        atLevel v .quiet (endMessage inv osminor k
          (mappingResults (after e (openSession lay inv uninstall) m).trace)
          (value e (openSession lay inv uninstall) m)).toList) := by
  by_cases huninstall : uninstall = 0
  swap
  · rw [if_neg fun h => huninstall h.1, openSessionAloud, if_pos huninstall, openSession,
      if_pos huninstall]
    exact says_error inv osminor msgErrorNotinstalled errNotInst hm rfl
  by_cases hallowed : inv.installationCheck = 1
  · rw [if_neg fun h => h.2 hallowed, openSessionAloud, if_neg (not_not.2 huninstall),
      if_pos hallowed, openSession, if_neg (not_not.2 huninstall), if_pos hallowed]
    exact says_error inv osminor msgErrorRedirNotAllowed errNoAllwd hm rfl
  rw [if_pos ⟨huninstall, hallowed⟩, openSessionAloud, if_neg (not_not.2 huninstall),
    if_neg hallowed, openSession_eq lay huninstall hallowed, after_bind, value_bind]
  refine (says_initVirtual lay inv.pciPort).bind ?_
  have hinit := (mappingResults_initVirtual lay inv.pciPort (e := e) (m := m)).trans hm
  generalize value e (vboxAuxInitVirtual lay inv.pciPort) m = out
  generalize after e (vboxAuxInitVirtual lay inv.pciPort) m = m₁ at hinit
  obtain ⟨ret, pciPort⟩ := out
  dsimp only
  by_cases hret : fail = ret
  · rw [if_pos hret, if_pos hret]
    exact says_error inv osminor msgErrorNovirt errNoVirt hinit rfl
  rw [if_neg hret, if_neg hret, newSession, after_bind, value_bind]
  refine says_lift_bind ?_
  obtain ⟨es, hes, hrec⟩ := beginSession_spec e lay m₁ pciPort inv.clientId
  have hbegin : mappingResults (after e (vboxAuxBeginSession lay pciPort inv.clientId) m₁).trace =
      [] := by
    rw [hes.trace, mappingResults_append, hinit, mappingResults_recorded lay hrec]
    rfl
  generalize value e (vboxAuxBeginSession lay pciPort inv.clientId) m₁ = out
  generalize after e (vboxAuxBeginSession lay pciPort inv.clientId) m₁ = m₂ at hbegin
  obtain ⟨ret, clientId⟩ := out
  dsimp only
  by_cases hsession : fail = ret
  · rw [if_pos hsession, if_pos hsession]
    exact says_error inv osminor msgErrorNoshf errNoShf hbegin rfl
  rw [if_neg hsession, if_neg hsession, after_bind, value_bind]
  refine says_lift_bind (says_listShares lay inv osminor pciPort clientId ?_)
  rw [(emits_mark e m₂ _).trace, mappingResults_append, hbegin]
  rfl

end Ends

/-- **The errors with a message.** -/
theorem endMessage_isSome_iff (inv : Invocation) (osminor : BitVec 8) (k : Kitten) {es : List Event}
    {out : Outcome} (h : Decided es out) :
    (endMessage inv osminor k (mappingResults es) out).isSome ↔
      out ≠ .returned errSuccess ∧ ∀ ret ∈ mappingResults es, ret = vinfSuccess := by
  have hsuccess (hmapping : mappingResults es = [vinfSuccess]) :
      (endMessage inv osminor k (mappingResults es) out).isSome ↔
        out ≠ .returned errSuccess ∧ ∀ ret ∈ mappingResults es, ret = vinfSuccess := by
    rw [hmapping, and_iff_left fun ret hret => List.mem_singleton.1 hret, endMessage]
    by_cases hout : out = .returned errSuccess
    · rw [if_neg fun h => h.2 hout]
      exact iff_of_false Bool.false_ne_true fun h => h hout
    · rw [if_pos ⟨rfl, hout⟩]
      exact iff_of_true rfl hout
  cases h with
  | early hmapping _ hout =>
      rw [hmapping]
      exact iff_of_true rfl ⟨fun h => hout ⟨errSuccess, h, rfl⟩, List.forall_mem_nil _⟩
  | noMappings ret hmapping hret _ _ =>
      rw [hmapping, endMessage, if_neg fun h => hret h.1]
      exact iff_of_false Bool.false_ne_true fun h => hret (h.2 ret (List.mem_singleton_self ret))
  | noShares hmapping _ _ => exact hsuccess hmapping
  | last _ hmapping _ _ => exact hsuccess hmapping

/-! ### Runs of `main` -/

instance (inv : Invocation) : Decidable inv.Searches :=
  inferInstanceAs (Decidable (_ ∧ _ ∧ _ ∧ _ ∧ _))

section Main

variable (e : Env) (lay : Layout) (inv : Invocation) (osminor : BitVec 8) (k : Kitten)
  (shared : Shared) (dos : Dos)

/-- The request block with the host's account of its version, if a run gets as far as that. -/
def hostBlock : Option Mem :=
  if inv.Searches ∧ (search dos).1 = none ∧
      (getOptions inv.argString Options.start).2.uninstall = 0 ∧ inv.installationCheck ≠ 1 then
    okBlock e (vboxAuxInitVirtual lay inv.pciPort) Prod.fst (boot shared (search dos).2)
  else none

/-- What a run goes on with, once it has searched. -/
def goOnAloud (lay : Layout) (inv : Invocation) (uninstall : BitVec 16) :
    Option (BitVec 16 × BitVec 32) → Aloud Outcome
  | some (pciPort, clientId) => listSharesAloud lay pciPort clientId
  | none => openSessionAloud lay inv uninstall

/-- A run, once the command line has been read. -/
theorem says_mainAloudFrom {v : Verbosity}
    (h₁ : (getOptions inv.argString Options.start).1 ≠ 1)
    (h₂ : (getOptions inv.argString Options.start).1 ≠ 2) :
    Says e v k (boot shared dos)
      (mainAloudFrom lay inv osminor (getOptions inv.argString Options.start).2) (main lay inv)
      (banner v ++ (versionLines v k (hostBlock e lay inv shared dos) ++
        atLevel v .quiet (endMessage inv osminor k
          (mappingResults (after e (main lay inv) (boot shared dos)).trace)
          (value e (main lay inv) (boot shared dos))).toList)) := by
  have hbanner {p : Aloud Outcome} {q : Code Outcome} {ps : List Printed}
      (h : Says e v k (boot shared dos) p q ps) : Says e v k (boot shared dos) (do
        verbFprintf .quiet .stderr (fun _ => .myName)
          (pure [.str vbsmount, .num versionMajor, .num versionMinor])
        verbFprintf .normal .stdout (fun _ => .copyright) (pure [])
        p) q (banner v ++ ps) := by
    rw [banner, List.append_assoc]
    exact (says_verbFprintf _ _ _ rfl).before ((says_verbFprintf _ _ _ rfl).before h)
  refine hbanner ?_
  by_cases hsearches : inv.Searches
  · obtain ⟨-, -, hcpu, hos, hvars⟩ := id hsearches
    rw [if_neg (not_not.2 hcpu), if_neg hos, if_neg (Bool.eq_false_iff.1 hvars),
      main_of_searches hsearches, after_bind, after_bind, value_bind, value_bind]
    have hdos : value e getDos (boot shared dos) = dos := rfl
    have hget : after e getDos (boot shared dos) = boot shared dos := rfl
    have hset : after e (setDos (search dos).2) (boot shared dos) =
      boot shared (search dos).2 := rfl
    refine says_lift_bind ?_
    rw [hdos, hget]
    change Says e v k (boot shared dos) (liftM (setDos (search dos).2) >>= fun _ =>
      goOnAloud lay inv (getOptions inv.argString Options.start).2.uninstall (search dos).1) _ _
    refine says_lift_bind ?_
    rw [hset]
    have hstart : mappingResults (boot shared (search dos).2).trace = [] := rfl
    cases hfound : (search dos).1 with
    | some session =>
        have hhost : hostBlock e lay inv shared dos = none :=
          if_neg fun h => by rw [hfound] at h; cases h.2.1
        rw [hhost]
        exact says_listShares lay inv osminor session.1 session.2 hstart
    | none =>
        have hhost : hostBlock e lay inv shared dos =
            if (getOptions inv.argString Options.start).2.uninstall = 0 ∧
                inv.installationCheck ≠ 1 then
              okBlock e (vboxAuxInitVirtual lay inv.pciPort) Prod.fst (boot shared (search dos).2)
            else none := by
          rw [hostBlock]
          exact if_congr ⟨fun h => h.2.2, fun h => ⟨hsearches, hfound, h⟩⟩ rfl rfl
        rw [hhost]
        exact says_openSession lay inv osminor _ hstart
  · have hhost : hostBlock e lay inv shared dos = none := if_neg fun h => hsearches h.1
    rw [hhost]
    by_cases hcpu : inv.runningIn386OrHigher = true
    swap
    · have hmain : main lay inv = pure (.returned errNoVirt) := by
        rw [main]
        simp only [if_neg h₁, if_neg h₂, if_pos hcpu]
      rw [if_pos hcpu, hmain]
      exact says_error inv osminor msgErrorNovirt errNoVirt rfl rfl
    rw [if_neg (not_not.2 hcpu)]
    by_cases hos : inv.osmajor < 5
    · have hmain : main lay inv = pure (.returned errWrongOs) := by
        rw [main]
        simp only [if_neg h₁, if_neg h₂, if_neg (not_not.2 hcpu), if_pos hos]
      rw [if_pos hos, hmain]
      exact (says_verbFprintf _ _ _ rfl).before_ret _
    have hvars : inv.noSysVars = true := by
      by_contra hvars
      exact hsearches ⟨h₁, h₂, hcpu, hos, Bool.eq_false_iff.2 hvars⟩
    have hmain : main lay inv = pure (.returned errSystem) := by
      rw [main]
      simp only [if_neg h₁, if_neg h₂, if_neg (not_not.2 hcpu), if_neg hos, if_pos hvars]
    rw [if_neg hos, if_pos hvars, hmain]
    exact says_error inv osminor msgErrorLol errSystem rfl rfl

/-- What a run prints, from what the host has told of its version, the results of the query for the
shares, and how it ends. -/
def prints (host : Option Mem) (results : List (BitVec 16)) (out : Outcome) : List Printed :=
  let (ret, options) := getOptions inv.argString Options.start
  if ret = 1 then usage .normal k
  else if ret = 2 then usage options.verbosity k
  else
    banner options.verbosity ++ (versionLines options.verbosity k host ++
      atLevel options.verbosity .quiet (endMessage inv osminor k results out).toList)

/-- A run of the program with its messages. -/
def runAloud : (Outcome × Console) × Machine :=
  Program.run (handle e) ((mainAloud lay inv osminor).run ⟨.normal, k, []⟩) (boot shared dos)

/-- **A run with its messages**: it is the run without them, and prints `prints`. -/
theorem runAloud_eq : ∃ v, runAloud e lay inv osminor k shared dos =
    ((value e (main lay inv) (boot shared dos), ⟨v, k, prints inv osminor k
      (hostBlock e lay inv shared dos)
      (mappingResults (after e (main lay inv) (boot shared dos)).trace)
      (value e (main lay inv) (boot shared dos))⟩), after e (main lay inv) (boot shared dos)) := by
  have hsays {v : Verbosity} {p : Aloud Outcome} {q : Code Outcome} {ps : List Printed}
      (h : Says e v k (boot shared dos) p q ps) :
      Program.run (handle e) (p.run ⟨v, k, []⟩) (boot shared dos) =
        ((value e q (boot shared dos), ⟨v, k, ps⟩), after e q (boot shared dos)) := h []
  have hmodify (f : Console → Console) (p : Aloud Outcome) (c : Console) :
      Program.run (handle e) ((modify f >>= fun _ => p).run c) (boot shared dos) =
        Program.run (handle e) (p.run (f c)) (boot shared dos) := rfl
  rw [prints, runAloud, mainAloud]
  by_cases h₁ : (getOptions inv.argString Options.start).1 = 1
  · have hmain : main lay inv = pure (.exited errSuccess) := by
      rw [main]
      simp only [if_pos h₁]
    simp only [if_pos h₁, hmodify, hmain]
    exact ⟨.normal, hsays (says_printUsageAndExit errSuccess)⟩
  by_cases h₂ : (getOptions inv.argString Options.start).1 = 2
  · have hmain : main lay inv = pure (.exited errBadOpts) := by
      rw [main]
      simp only [if_neg h₁, if_pos h₂]
    simp only [if_neg h₁, if_pos h₂, hmodify, hmain]
    exact ⟨_, hsays (says_printUsageAndExit errBadOpts)⟩
  simp only [if_neg h₁, if_neg h₂, hmodify]
  exact ⟨_, hsays (says_mainAloudFrom e lay inv osminor k shared dos h₁ h₂)⟩

end Main

/-- The messages that go through the catalogue. -/
def messages : List Message :=
  [msgHelp1, msgHelp2, msgHelp3, msgHelp4, msgHelp5, msgHelp6, msgHelp7, msgHelp8, msgHelp9,
    msgHelp19, msgErrorWrongos, msgErrorNovirt, msgErrorLol, msgErrorRedirNotAllowed, msgErrorNoshf,
    msgErrorNotinstalled, msgInfoVbxvers]

def Printed.text : Printed → Text
  | .fputs text _ => text
  | .fprintf _ format _ => format

/-- The text is one of the program's own, or what `catgets` returns for one of the messages. -/
def Printed.Known (k : Kitten) (p : Printed) : Prop :=
  p.text = .myName ∨ p.text = .copyright ∨ ∃ msg ∈ messages, p.text = msg.got k

section Texts

variable {k : Kitten} {v level : Verbosity}

theorem known_atLevel {ps : List Printed} (h : ∀ p ∈ ps, p.Known k) :
    ∀ p ∈ atLevel v level ps, p.Known k := by
  intro p hp
  rw [atLevel] at hp
  split_ifs at hp
  · exact h p hp
  · cases hp

theorem known_usage : ∀ p ∈ usage v k, p.Known k := by
  refine List.forall_mem_append.2 ⟨known_atLevel ?_, known_atLevel ?_⟩
  · simp [Printed.Known, Printed.text]
  · simp [Printed.Known, Printed.text, messages]

theorem known_banner : ∀ p ∈ banner v, p.Known k := by
  refine List.forall_mem_append.2 ⟨known_atLevel ?_, known_atLevel ?_⟩
  · simp [Printed.Known, Printed.text]
  · simp [Printed.Known, Printed.text]

theorem known_versionLines (b : Option Mem) : ∀ p ∈ versionLines v k b, p.Known k := by
  cases b with
  | none => exact List.forall_mem_nil _
  | some b =>
      refine known_atLevel ?_
      simp [Printed.Known, Printed.text, messages]

theorem known_endMessage (inv : Invocation) (osminor : BitVec 8) (results : List (BitVec 16))
    (out : Outcome) : ∀ p ∈ (endMessage inv osminor k results out).toList, p.Known k := by
  have herror (err : BitVec 16) : (errorMessage inv osminor k err).Known k := by
    rw [errorMessage]
    split_ifs
    all_goals simp [Printed.Known, Printed.text, messages]
  intro p hp
  rw [Option.mem_toList] at hp
  cases results with
  | nil =>
      cases hp
      exact herror out.err
  | cons ret results =>
      rw [endMessage] at hp
      split_ifs at hp
      cases hp
      simp [Printed.Known, Printed.text, messages]

/-- **Every message is one of these.** -/
theorem known_prints (inv : Invocation) (osminor : BitVec 8) (host : Option Mem)
    (results : List (BitVec 16)) (out : Outcome) :
    ∀ p ∈ prints inv osminor k host results out, p.Known k := by
  rw [prints]
  dsimp only
  split_ifs
  · exact known_usage
  · exact known_usage
  · refine List.forall_mem_append.2 ⟨known_banner, List.forall_mem_append.2 ?_⟩
    exact ⟨known_versionLines host, known_atLevel (known_endMessage inv osminor results out)⟩

end Texts

/-- The name of the catalogue. -/
def catalogName : Str chNul := ⟨vbsmount, by decide⟩

/-- A catalogue for one message. -/
def spanishFiles : Files := fun f =>
  if f = ascii "C:\\NLS\\es\\VBSMOUNT" then some (ascii "1.8:No hay carpetas.\n") else none

def spanishEnv : NlsEnv := ⟨some ⟨ascii "es", by decide⟩, some ⟨ascii "C:\\NLS", by decide⟩⟩

/-- The file is the first one that is looked for. -/
example : found spanishFiles (fileNames spanishEnv vbsmount) =
    some (ascii "1.8:No hay carpetas.\n") := by decide

end Vbsmount

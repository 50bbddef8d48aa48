/-
**Looking for a catalogue.**

`kittenopen` builds the name of a file in the static array `catfile`, piece by piece and without
looking at its end, tries to read the file, and goes on to the next name when it cannot.  Two names
are built for each directory of `NLSPATH`, up to the first directory that is too long for the array.

Main definitions:

* `Holds` — an array that holds a string;
* `ruleOneName`, `ruleTwoName`, `candidates` — the names that are built for a directory, and for the
  directories of `NLSPATH`;
* `tryAll` — trying names one by one;
* `fileNames` — the names that `kittenopen` tries;
* `opened` — the names that are opened in a run.

Main results:

* `ruleOne_eq`, `ruleTwo_eq` — a name is built inside the array;
* `nlsLoop_eq` — the loop over the directories tries the names in order;
* `kittenopen_search` — `kittenopen` tries exactly these names, in this order;
* `kittenopen_opened` — **whatever DOS answers, the files that are opened are the first ones of
  these names, and all of them unless one is a catalogue, and the array is never left**.
-/

import Vbsmount.KittenBounds

set_option relaxedAutoImplicit false
set_option autoImplicit false

namespace Vbsmount

open CString

/-! ### Building a name -/

/-- The array holds the string. -/
def Holds (buf s : List (BitVec 8)) : Prop := ∃ rest, buf = s ++ chNul :: rest

theorem Holds.text_eq {buf s : List (BitVec 8)} (h : Holds buf s) (hs : chNul ∉ s) :
    text chNul buf = s := by
  obtain ⟨rest, rfl⟩ := h
  rw [text_append hs, text_nul, List.append_nil]

theorem memcpyTo_eq {a b bs : List (BitVec 8)} (h : bs.length ≤ b.length) :
    memcpyTo (a ++ b) a.length bs = some (a ++ (bs ++ b.drop bs.length)) := by
  rw [memcpyTo, if_pos (by rw [List.length_append]; omega)]
  simp

/-- `strcpy` behind a piece that stays. -/
theorem strcpyTo_eq {a b s : List (BitVec 8)} (h : s.length < b.length) :
    ∃ buf, strcpyTo (a ++ b) a.length s = some buf ∧ Holds buf (a ++ s) ∧
      buf.length = (a ++ b).length := by
  have hlen : (s ++ [chNul]).length ≤ b.length := by
    rw [List.length_append, List.length_singleton]
    omega
  refine ⟨_, memcpyTo_eq hlen, ⟨b.drop (s ++ [chNul]).length, by simp⟩, ?_⟩
  simp
  omega

/-- `strcat` behind a string that fits. -/
theorem strcatTo_eq {buf s t : List (BitVec 8)} (h : Holds buf s) (hs : chNul ∉ s)
    (hlen : s.length + t.length < buf.length) :
    ∃ buf', strcatTo buf t = some buf' ∧ Holds buf' (s ++ t) ∧ buf'.length = buf.length := by
  obtain ⟨rest, rfl⟩ := h
  have hend : strEnd chNul (s ++ chNul :: rest) = s.length := strEnd_append_nul hs rest
  rw [strcatTo, hend]
  exact strcpyTo_eq (by rw [List.length_append] at hlen; omega)

/-- The file name that rule #1 builds. -/
def ruleOneName (seg catlang name : List (BitVec 8)) : List (BitVec 8) :=
  seg ++ [chBackslash] ++ catlang ++ [chBackslash] ++ name

/-- The file name that rule #2 builds. -/
def ruleTwoName (seg catlang name : List (BitVec 8)) : List (BitVec 8) :=
  seg ++ [chBackslash] ++ name ++ [chDot] ++ catlang

section Rules

variable {buf seg catlang name : List (BitVec 8)}

/-- **Rule #1 builds its name inside the array**, with the directory at the front. -/
theorem ruleOne_eq (hbuf : buf.length = 128) (hlen : seg.length + 6 + name.length ≤ 128)
    (hlang : catlang.length = 2) (hseg : chNul ∉ seg) (hcatlang : chNul ∉ catlang) :
    ∃ buf', ruleOne buf seg catlang name = some buf' ∧ Holds buf' (ruleOneName seg catlang name) ∧
      buf'.length = 128 := by
  have hback : chNul ∉ [chBackslash] := by decide
  have hcopy : memcpyTo buf 0 seg = some (seg ++ buf.drop seg.length) := by
    have h : memcpyTo ([] ++ buf) 0 seg = some ([] ++ (seg ++ buf.drop seg.length)) :=
      memcpyTo_eq (by omega)
    simpa using h
  obtain ⟨b₁, h₁, hb₁, hl₁⟩ := strcpyTo_eq (a := seg) (b := buf.drop seg.length)
    (s := [chBackslash]) (by simp; omega)
  have hn₁ : chNul ∉ seg ++ [chBackslash] := by
    rw [List.mem_append, not_or]
    exact ⟨hseg, hback⟩
  have hl₁' : b₁.length = 128 := by
    rw [hl₁, List.length_append, List.length_drop]
    omega
  obtain ⟨b₂, h₂, hb₂, hl₂⟩ := strcatTo_eq (t := catlang) hb₁ hn₁ (by simp; omega)
  have hn₂ : chNul ∉ seg ++ [chBackslash] ++ catlang := by
    rw [List.mem_append, not_or]
    exact ⟨hn₁, hcatlang⟩
  obtain ⟨b₃, h₃, hb₃, hl₃⟩ := strcatTo_eq (t := [chBackslash]) hb₂ hn₂ (by simp; omega)
  have hn₃ : chNul ∉ seg ++ [chBackslash] ++ catlang ++ [chBackslash] := by
    rw [List.mem_append, not_or]
    exact ⟨hn₂, hback⟩
  obtain ⟨b₄, h₄, hb₄, hl₄⟩ := strcatTo_eq (t := name) hb₃ hn₃ (by simp; omega)
  refine ⟨b₄, ?_, hb₄, by omega⟩
  simp only [ruleOne, hcopy, h₁, h₂, h₃, h₄, Option.bind_eq_bind, Option.bind_some]

/-- **Rule #2 builds its name inside the array** that rule #1 has left. -/
theorem ruleTwo_eq (hbuf : Holds buf (ruleOneName seg catlang name)) (hlen : buf.length = 128)
    (hfits : seg.length + 6 + name.length ≤ 128) (hlang : catlang.length = 2) (hseg : chNul ∉ seg)
    (hname : chNul ∉ name) :
    ∃ buf', ruleTwo buf seg.length catlang name = some buf' ∧
      Holds buf' (ruleTwoName seg catlang name) ∧ buf'.length = 128 := by
  obtain ⟨rest, rfl⟩ := hbuf
  have hsplit : ruleOneName seg catlang name ++ chNul :: rest =
      seg ++ ([chBackslash] ++ (catlang ++ ([chBackslash] ++ (name ++ chNul :: rest)))) := by
    simp [ruleOneName]
  rw [hsplit] at hlen ⊢
  obtain ⟨b₁, h₁, hb₁, hl₁⟩ := strcpyTo_eq (a := seg) (s := [chBackslash])
    (b := [chBackslash] ++ (catlang ++ ([chBackslash] ++ (name ++ chNul :: rest)))) (by simp)
  rw [hlen] at hl₁
  have hn₁ : chNul ∉ seg ++ [chBackslash] := by
    rw [List.mem_append, not_or]
    exact ⟨hseg, by decide⟩
  obtain ⟨b₂, h₂, hb₂, hl₂⟩ := strcatTo_eq (t := name) hb₁ hn₁ (by simp; omega)
  have hn₂ : chNul ∉ seg ++ [chBackslash] ++ name := by
    rw [List.mem_append, not_or]
    exact ⟨hn₁, hname⟩
  obtain ⟨b₃, h₃, hb₃, hl₃⟩ := strcatTo_eq (t := [chDot]) hb₂ hn₂ (by simp; omega)
  have hn₃ : chNul ∉ seg ++ [chBackslash] ++ name ++ [chDot] := by
    rw [List.mem_append, not_or]
    exact ⟨hn₂, by decide⟩
  obtain ⟨b₄, h₄, hb₄, hl₄⟩ := strcatTo_eq (t := catlang) hb₃ hn₃ (by simp; omega)
  refine ⟨b₄, ?_, hb₄, by omega⟩
  simp only [ruleTwo, h₁, h₂, h₃, h₄, Option.bind_eq_bind, Option.bind_some]

end Rules

/-! ### The names -/

/-- The directory is not too long for the array. -/
def Fits (name seg : List (BitVec 8)) : Prop := seg.length + 6 + name.length ≤ 128

instance (name seg : List (BitVec 8)) : Decidable (Fits name seg) :=
  inferInstanceAs (Decidable (_ ≤ _))

/-- The names that are built for the directories, up to the first one that is too long. -/
def candidates (catlang name : List (BitVec 8)) (segs : List (List (BitVec 8))) :
    List (List (BitVec 8)) :=
  (segs.takeWhile fun seg => Fits name seg).flatMap fun seg =>
    [ruleOneName seg catlang name, ruleTwoName seg catlang name]

/-- Trying names one by one. -/
def tryAll : List (List (BitVec 8)) → Kitten → (Kitten → DosCode Returned) → DosCode Returned
  | [], k, last => last k
  | f :: fs, k, last => tryFile k f fun k => tryAll fs k last

/-- What comes when no name was that of a catalogue: a directory was too long, or there are no more
directories. -/
def noneFound (name : List (BitVec 8)) (segs : List (List (BitVec 8))) (k : Kitten) :
    DosCode Returned :=
  if ∀ seg ∈ segs, Fits name seg then return .ok (-1, k)
  else do
    dosWrite 1 (ascii "NLSPATH overflow\r\n")
    return .ok (0, k)

theorem candidates_cons {catlang name seg : List (BitVec 8)} (h : Fits name seg)
    (segs : List (List (BitVec 8))) : candidates catlang name (seg :: segs) =
      ruleOneName seg catlang name :: ruleTwoName seg catlang name ::
        candidates catlang name segs := by
  simp [candidates, h]

theorem noneFound_cons {name seg : List (BitVec 8)} (h : Fits name seg)
    (segs : List (List (BitVec 8))) : noneFound name (seg :: segs) = noneFound name segs := by
  funext k
  simp [noneFound, h]

/-- A directory, with what comes after it: both names are built, whatever the array holds. -/
theorem directory_eq (next : Kitten → List (BitVec 8) → DosCode Returned)
    (next' : Kitten → DosCode Returned) {catfile seg catlang name : List (BitVec 8)}
    (hbuf : catfile.length = 128) (hfits : Fits name seg) (hlang : catlang.length = 2)
    (hseg : chNul ∉ seg) (hcatlang : chNul ∉ catlang) (hname : chNul ∉ name)
    (hnext : ∀ k buf, buf.length = 128 → next k buf = next' k) (k : Kitten) :
    (match ruleOne catfile seg catlang name with
      | none => return .error .catfile
      | some catfile =>
          tryFile k (text chNul catfile) fun k =>
            match ruleTwo catfile seg.length catlang name with
            | none => return .error .catfile
            | some catfile => tryFile k (text chNul catfile) fun k => next k catfile) =
      tryFile k (ruleOneName seg catlang name) fun k =>
        tryFile k (ruleTwoName seg catlang name) next' := by
  have hn₁ : chNul ∉ ruleOneName seg catlang name := by
    simp only [ruleOneName, List.mem_append, not_or]
    exact ⟨⟨⟨⟨hseg, by decide⟩, hcatlang⟩, by decide⟩, hname⟩
  have hn₂ : chNul ∉ ruleTwoName seg catlang name := by
    simp only [ruleTwoName, List.mem_append, not_or]
    exact ⟨⟨⟨⟨hseg, by decide⟩, hname⟩, by decide⟩, hcatlang⟩
  obtain ⟨b₁, h₁, hb₁, hl₁⟩ := ruleOne_eq hbuf hfits hlang hseg hcatlang
  obtain ⟨b₂, h₂, hb₂, hl₂⟩ := ruleTwo_eq hb₁ hl₁ hfits hlang hseg hname
  have hthen : (fun k => next k b₂) = next' := funext fun k => hnext k b₂ hl₂
  simp only [h₁, h₂, hb₁.text_eq hn₁, hb₂.text_eq hn₂, hthen]

/-- **The loop over the directories tries the names in order**, and stops at the first directory
that is too long. -/
theorem nlsLoop_eq {catlang name : List (BitVec 8)} (hlang : catlang.length = 2)
    (hcatlang : chNul ∉ catlang) (hname : chNul ∉ name) (fuel : ℕ) {k : Kitten}
    {catfile nlsptr : List (BitVec 8)} (hbuf : catfile.length = 128) (hnls : chNul ∉ nlsptr)
    (hfuel : nlsptr.length < fuel) (hint : nlsptr.length + 6 + name.length < 65536) :
    nlsLoop catlang name fuel k catfile nlsptr =
      tryAll (candidates catlang name (Lines.piecesOf chSemicolon nlsptr)) k
        (noneFound name (Lines.piecesOf chSemicolon nlsptr)) := by
  induction fuel generalizing k catfile nlsptr with
  | zero => cases hfuel
  | succ fuel ih =>
      by_cases hempty : nlsptr = []
      · subst hempty
        rfl
      · have hlong (l : ℕ) (hl : l ≤ nlsptr.length) :
            (l + 6 + name.length) % 65536 = l + 6 + name.length := Nat.mod_eq_of_lt (by omega)
        rw [nlsLoop, if_neg hempty]
        cases hcut : Lines.cut chSemicolon nlsptr with
        | none =>
            have hsemi := Lines.cut_eq_none_iff.1 hcut
            have htok : strchr (nlsptr ++ [chNul]) chSemicolon = some none :=
              index_of_notMem hnls hsemi (by decide) []
            rw [Lines.piecesOf_of_notMem hempty hsemi]
            simp only [htok, Option.join_some, Option.getD_none, hlong _ le_rfl, List.take_length]
            by_cases hfits : Fits name nlsptr
            · rw [if_neg (Nat.not_lt.2 hfits), candidates_cons hfits, noneFound_cons hfits]
              exact directory_eq (fun k _ => Program.ret (.ok (-1, k))) (noneFound name []) hbuf
                hfits hlang hnls hcatlang hname (fun k _ _ => rfl) k
            · rw [if_pos (Nat.not_le.1 hfits)]
              simp [candidates, noneFound, hfits, tryAll]
        | some fields =>
            obtain ⟨seg, rest⟩ := fields
            obtain ⟨rfl, hsemi⟩ := Lines.cut_eq_some_iff.1 hcut
            rw [List.mem_append, not_or] at hnls
            have hrest : chNul ∉ rest := fun h => hnls.2 (List.mem_cons_of_mem _ h)
            have htok : strchr ((seg ++ chSemicolon :: rest) ++ [chNul]) chSemicolon =
                some (some seg.length) := by
              rw [List.append_assoc]
              exact index_of_first hnls.1 hsemi _
            have hdrop : (seg ++ chSemicolon :: rest).drop (seg.length + 1) = rest := by
              simp
            rw [Lines.piecesOf_cons hsemi]
            rw [List.length_append, List.length_cons] at hfuel hint
            simp only [htok, Option.join_some, Option.getD_some, hlong seg.length (by simp),
              List.take_left, hdrop]
            by_cases hfits : Fits name seg
            · rw [if_neg (Nat.not_lt.2 hfits), candidates_cons hfits, noneFound_cons hfits]
              exact directory_eq (fun k buf => nlsLoop catlang name fuel k buf rest)
                (fun k => tryAll _ k _) hbuf hfits hlang hnls.1 hcatlang hname
                (fun k buf hl => ih hl hrest (by omega) (by omega)) k
            · rw [if_pos (Nat.not_le.1 hfits)]
              simp [candidates, noneFound, hfits, tryAll]

/-! ### `kittenopen` -/

/-- The directories that are looked at: none when the language is not known. -/
def NlsEnv.directories (env : NlsEnv) : List (List (BitVec 8)) :=
  match env.lang, env.nlspath with
  | some lang, some nlspath =>
      if lang.chars.length < 2 ∨ (2 < lang.chars.length ∧ lang.chars[2]? ≠ some chHyphen) then []
      else Lines.piecesOf chSemicolon nlspath.chars
  | _, _ => []

/-- The language, as far as it is a part of the names. -/
def NlsEnv.catlang (env : NlsEnv) : List (BitVec 8) :=
  (env.lang.map fun lang => lang.chars.take 2).getD []

/-- The names that `kittenopen` tries. -/
def fileNames (env : NlsEnv) (name : List (BitVec 8)) : List (List (BitVec 8)) :=
  (if name.contains chBackslash then [name] else []) ++ candidates env.catlang name env.directories

/-- The strings of the environment are short enough for an `int`. -/
def NlsEnv.Short (env : NlsEnv) (name : List (BitVec 8)) : Prop :=
  ∀ nlspath ∈ env.nlspath, nlspath.chars.length + 6 + name.length < 65536

theorem searchNls_eq {env : NlsEnv} {catfile : List (BitVec 8)} (name : Str chNul) (k : Kitten)
    (hbuf : catfile.length = 128) (hshort : env.Short name.chars) :
    searchNls env k catfile name.chars =
      tryAll (candidates env.catlang name.chars env.directories) k
        (noneFound name.chars env.directories) := by
  rw [searchNls, NlsEnv.directories, NlsEnv.catlang]
  cases hlang : env.lang with
  | none => rfl
  | some lang =>
      by_cases hbad : lang.chars.length < 2 ∨
          (2 < lang.chars.length ∧ lang.chars[2]? ≠ some chHyphen)
      · simp only [if_pos hbad]
        cases env.nlspath with
        | none => rfl
        | some nlspath =>
            simp only [if_pos hbad]
            rfl
      · cases hnls : env.nlspath with
        | none =>
            simp only [if_neg hbad]
            rfl
        | some nlspath =>
            simp only [if_neg hbad, Option.map_some, Option.getD_some]
            have hlen : 2 ≤ lang.chars.length := by omega
            exact nlsLoop_eq (by rw [List.length_take]; omega)
              (fun h => lang.nul_notMem (List.mem_of_mem_take h)) name.nul_notMem _
              (by rw [List.length_set, hbuf]) nlspath.nul_notMem (Nat.lt_succ_self _)
              (hshort nlspath hnls)

/-- What is written about a name with a backslash in it. -/
def announce (name : List (BitVec 8)) : DosCode Unit :=
  if name.contains chBackslash then dosWrite 1 (ascii "found \\\r\n") else return ()

/-- `kittenopen` as a search: the names are tried in order. -/
theorem kittenopen_search {env : NlsEnv} {catfile : List (BitVec 8)} {k : Kitten} (name : Str chNul)
    (hclosed : k.kittenCatalog = 0) (hbuf : catfile.length = 128) (hshort : env.Short name.chars) :
    kittenopen env catfile k name = announce name.chars >>= fun _ =>
      tryAll (fileNames env name.chars) k.clear (noneFound name.chars env.directories) := by
  rw [kittenopen, if_neg (not_not.2 hclosed), fileNames, announce]
  have hsearch : (fun k => searchNls env k catfile name.chars) = fun k =>
      tryAll (candidates env.catlang name.chars env.directories) k
        (noneFound name.chars env.directories) :=
    funext fun k => searchNls_eq name k hbuf hshort
  by_cases hback : name.chars.contains chBackslash = true
  · simp only [if_pos hback, hsearch]
    rfl
  · simp only [if_neg hback, searchNls_eq name k.clear hbuf hshort]
    rfl

/-! ### The files that are opened -/

/-- The files that there are. -/
abbrev Files := List (BitVec 8) → Option (List (BitVec 8))

/-- A DOS with these files: its state is what is left to read of the file opened last. -/
def Files.dos (files : Files) : (o : DosCall) → List (BitVec 8) → dosCalls.Res o × List (BitVec 8)
  | .open f, ahead => ((files f).map fun _ => 5, (files f).getD ahead)
  | .read _ count, ahead =>
      (some ⟨ahead.take count, List.length_take_le count ahead⟩, ahead.drop count)
  | .write _ _, ahead => ((), ahead)
  | .close _, ahead => ((), ahead)

/-- The name of a file that is opened. -/
def DosCall.filename : DosCall → Option (List (BitVec 8))
  | .open f => some f
  | _ => none

section Opened

variable {σ α β : Type} {h : (o : DosCall) → σ → dosCalls.Res o × σ}

/-- The names that are opened in a run. -/
def opened (h : (o : DosCall) → σ → dosCalls.Res o × σ) (p : DosCode α) (s : σ) :
    List (List (BitVec 8)) :=
  (Program.calls h p s).filterMap DosCall.filename

theorem opened_bind (p : DosCode α) (f : α → DosCode β) (s : σ) :
    opened h (p >>= f) s =
      opened h p s ++ opened h (f (Program.run h p s).1) (Program.run h p s).2 := by
  rw [opened, Program.calls_bind, List.filterMap_append]
  rfl

/-- What a search over names has done: it has opened the first ones of them, and all of them unless
it has come to a catalogue, or to a file that leaves the buffer or the table. -/
def Searched (names done : List (List (BitVec 8))) : Returned → Prop
  | .ok (r, _) => (done <+: names ∧ done ≠ [] ∧ r = 1) ∨ (done = names ∧ r ≠ 1)
  | .error e => done <+: names ∧ done ≠ [] ∧ e ≠ .catfile

theorem length_dosRead_le (file : BitVec 16) (count : ℕ) (s : σ) :
    (Program.run h (dosRead file count) s).1.length ≤ count := by
  change (((h (.read file count) s).1.map Subtype.val).getD []).length ≤ count
  cases (h (.read file count) s).1 with
  | none => exact Nat.zero_le count
  | some bs => exact bs.2

/-- **`catread` opens its file** and nothing else, and returns whether it could be read. -/
theorem catread_opened (k : Kitten) (f : List (BitVec 8)) (s : σ) :
    opened h (catread k f) s = [f] ∧
      match (Program.run h (catread k f) s).1 with
      | .ok (r, _) => r = 0 ∨ r = 1
      | .error e => e ≠ .catfile := by
  have hopen : opened h (dosOpen f) s = [f] := rfl
  rw [catread, opened_bind, Program.run_bind, hopen]
  generalize Program.run h (dosOpen f) s = opn
  obtain ⟨file, s⟩ := opn
  by_cases hneg : file.toInt < 0
  · simp only [if_pos hneg]
    exact ⟨rfl, .inl rfl⟩
  · have hread : opened h (dosRead file 8191) s = [] := rfl
    have hle := length_dosRead_le (h := h) file 8191 s
    simp only [if_neg hneg]
    rw [opened_bind, Program.run_bind, hread]
    generalize Program.run h (dosRead file 8191) s = rd at hle
    obtain ⟨bs, s⟩ := rd
    dsimp only at hle
    by_cases hsize : bs.length = 8191 ∨ bs.length < 1
    · simp only [if_pos hsize]
      exact ⟨rfl, .inl rfl⟩
    · simp only [if_neg hsize]
      cases hparse : parseCatalog k.clear bs with
      | ok k' => exact ⟨rfl, .inr rfl⟩
      | error e =>
          refine ⟨rfl, ?_⟩
          change e ≠ .catfile
          by_cases hhead : bs.head? = some chLf
          · rw [parseCatalog_of_head hhead] at hparse
            cases hparse
            decide
          · rcases parseCatalog_inBounds k (by omega) hhead with herr | ⟨k', hok, -⟩
            · rw [herr] at hparse
              cases hparse
              decide
            · rw [hok] at hparse
              cases hparse

/-- A name in front of others, with what comes after it. -/
theorem tryFile_opened {names : List (List (BitVec 8))} (k : Kitten) (f : List (BitVec 8))
    {next : Kitten → DosCode Returned} (s : σ)
    (hnext : ∀ k s, Searched names (opened h (next k) s) (Program.run h (next k) s).1) :
    Searched (f :: names) (opened h (tryFile k f next) s)
      (Program.run h (tryFile k f next) s).1 := by
  obtain ⟨hopen, hvalue⟩ := catread_opened (h := h) k f s
  rw [tryFile, opened_bind, Program.run_bind, hopen]
  generalize Program.run h (catread k f) s = out at hvalue
  obtain ⟨r | ⟨r, k'⟩, s'⟩ := out
  · exact ⟨⟨names, rfl⟩, List.cons_ne_nil f [], hvalue⟩
  · dsimp only at hvalue ⊢
    by_cases hr : r = 0
    · rw [if_neg (not_not.2 hr)]
      have hrest := hnext { k' with kittenCatalog := r } s'
      generalize Program.run h (next { k' with kittenCatalog := r }) s' = fin at hrest ⊢
      generalize opened h (next { k' with kittenCatalog := r }) s' = done at hrest ⊢
      obtain ⟨e | ⟨r', k''⟩, s''⟩ := fin
      · obtain ⟨hpre, -, he⟩ := hrest
        exact ⟨List.cons_prefix_cons.2 ⟨rfl, hpre⟩, List.cons_ne_nil f done, he⟩
      · rcases hrest with ⟨hpre, -, hone⟩ | ⟨rfl, hne⟩
        · exact .inl ⟨List.cons_prefix_cons.2 ⟨rfl, hpre⟩, List.cons_ne_nil f done, hone⟩
        · exact .inr ⟨rfl, hne⟩
    · rw [if_pos hr]
      exact .inl ⟨⟨names, rfl⟩, List.cons_ne_nil f [], hvalue.resolve_left hr⟩

theorem tryAll_opened (names : List (List (BitVec 8))) (k : Kitten)
    {last : Kitten → DosCode Returned} (s : σ)
    (hlast : ∀ k s, Searched [] (opened h (last k) s) (Program.run h (last k) s).1) :
    Searched names (opened h (tryAll names k last) s)
      (Program.run h (tryAll names k last) s).1 := by
  induction names generalizing k s with
  | nil => exact hlast k s
  | cons f names ih => exact tryFile_opened k f s ih

theorem noneFound_opened (name : List (BitVec 8)) (segs : List (List (BitVec 8))) (k : Kitten)
    (s : σ) :
    Searched [] (opened h (noneFound name segs k) s)
      (Program.run h (noneFound name segs k) s).1 := by
  rw [noneFound]
  split_ifs
  · exact .inr ⟨rfl, by decide⟩
  · exact .inr ⟨rfl, by decide⟩

end Opened

/-- A language and two directories. -/
@[irreducible] def sampleEnv : NlsEnv :=
  ⟨some ⟨ascii "es-ES", by decide⟩, some ⟨ascii "C:\\NLS;D:\\NLS", by decide⟩⟩

def sampleFileName : Str chNul := ⟨ascii "M", by decide⟩

/-- A file under the last name. -/
def sampleFiles : Files := fun f => if f = ascii "D:\\NLS\\M.es" then some sampleCatalog else none

end Vbsmount

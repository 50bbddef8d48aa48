/-
**The message catalogue (`kitten.c`).**

A catalogue is a text file of lines `1.2:message`.  It is read into one static buffer,
`catcontents`, and taken apart there: the line ends, the colon and the full stop of each entry are
overwritten by terminators, the escape sequences of the message are replaced in place, and a table
of 128 entries, `catpoints`, points into the buffer.  Here a pointer into the buffer is an offset,
and what an access outside of one of the arrays does is not defined: such an access ends the run.

Main definitions:

* `CatString`, `Kitten` — an entry of the table, and the statics of the module;
* `mystrtoul`, `escReader`, `processEscChars` — numbers, one round of the loop over the escape
  sequences, and that loop in place;
* `cutLine`, `catreadLine`, `catreadLoop` — the loop of `catread` over the lines;
* `kittengets` — the lookup;
* `DosCall`, `dosOpen`, `dosRead`, `dosWrite`, `dosClose` — the calls of int 21h;
* `catread`, `nlsLoop`, `kittenopen`, `kittenclose` — reading a file, and looking for it.

What the static `catfile` holds between two calls is not read by anything, and is an argument of
`kittenopen` here; its other statics are `Kitten`.
-/

import Vbsmount.Dos
import Vbsmount.Lib.CString
import Vbsmount.Lib.InPlace
import Vbsmount.Lib.Program

set_option relaxedAutoImplicit false
set_option autoImplicit false

namespace Vbsmount

open CString

/-! ### Data -/

def chLf : BitVec 8 := 0x0A
def chCr : BitVec 8 := 0x0D
def chColon : BitVec 8 := 0x3A
def chSemicolon : BitVec 8 := 0x3B
def chHyphen : BitVec 8 := 0x2D

/-- The array that an access leaves. -/
inductive Overrun
  | catcontents
  | catpoints
  | catfile
  deriving DecidableEq

/-- `struct catstring`: `text` is null or points into `catcontents`. -/
structure CatString where
  key1 : BitVec 8
  key2 : BitVec 8
  text : Option ℕ
  deriving DecidableEq

/-- The statics of `kitten.c`. -/
structure Kitten where
  catcontents : List (BitVec 8)
  catpoints : List CatString
  /-- `_kitten_catalog`. -/
  kittenCatalog : BitVec 16
  deriving DecidableEq

/-- The statics as the program starts. -/
def Kitten.start : Kitten :=
  ⟨List.replicate 8192 0, List.replicate 128 ⟨0, 0, none⟩, 0⟩

/-! ### Numbers and escape sequences -/

/-- `strchr`, with the offset of the character. -/
def strchr (str : List (BitVec 8)) (c : BitVec 8) : Option (Option ℕ) := index chNul c str

/-- The value of a digit: 0-9, A-Z, a-z. -/
def digitOf (ch : BitVec 8) : Option ℕ :=
  if 0x30 ≤ ch ∧ ch ≤ 0x39 then some (ch.toNat - 0x30)
  else if 0x41 ≤ ch ∧ ch ≤ 0x5A then some (ch.toNat - 0x41 + 10)
  else if 0x61 ≤ ch ∧ ch ≤ 0x7A then some (ch.toNat - 0x61 + 10)
  else none

/-- The loop of `mystrtoul`. -/
def mystrtoulLoop (base : ℕ) : ℕ → List (BitVec 8) → BitVec 16 → Option (BitVec 16)
  | 0, _, ret => some ret
  | _ + 1, [], _ => none
  | size + 1, ch :: src, ret =>
      match digitOf ch with
      | none => some (-1)
      | some digit =>
          if base ≤ digit then some (-1)
          else
            mystrtoulLoop base size src (ret * BitVec.ofNat 16 base + BitVec.ofNat 16 digit)

/-- `mystrtoul`: the number, or -1 at a character that is no digit of it. -/
def mystrtoul (src : List (BitVec 8)) (base size : ℕ) : Option (BitVec 16) :=
  mystrtoulLoop base size src 0

/-- The cases of the `switch` that store one fixed character. -/
def escLetter (ch : BitVec 8) : Option (BitVec 8) :=
  if ch = chBackslash then some chBackslash
  -- 'n', 'r', 't'
  else if ch = 0x6E then some chLf
  else if ch = 0x72 then some chCr
  else if ch = 0x74 then some 0x09
  -- 'v', 'b', 'a', 'f'
  else if ch = 0x76 then some 0x0B
  else if ch = 0x62 then some 0x08
  else if ch = 0x61 then some 0x07
  else if ch = 0x66 then some 0x0C
  else none

/-- The cases of the `switch` that look for a number at `src`: the character stored, and by how much
`src` is advanced.  When there is no number, `*src` is stored. -/
def escNumber (src : List (BitVec 8)) (base size : ℕ) : Option (BitVec 8 × ℕ) :=
  match mystrtoul src base size with
  | none => none
  | some chx =>
      if 0 ≤ chx.toInt then some (chx.setWidth 8, size) else src.head?.map fun c => (c, 0)

/-- One round of the loop of `processEscChars`: the character stored at `*dst++`, and by how much
`src` is advanced. -/
def escReader : InPlace.Reader (BitVec 8)
  | [] => none
  | ch :: src =>
      if ch = chBackslash then
        match src with
        | [] => none
        | ch :: src =>
            match escLetter ch with
            | some c => some (c, 2)
            | none =>
                -- 'x', and the default
                let number := if ch = 0x78 then escNumber src 16 2 else escNumber src 8 3
                number.map fun (c, k) => (c, k + 2)
      else some (ch, 1)

/-- `processEscChars`, on the string at `line`: the loop stores one character in each round, and a
terminator behind the last one. -/
def processEscChars (catcontents : List (BitVec 8)) (line : ℕ) : Option (List (BitVec 8)) :=
  InPlace.run chNul escReader (catcontents.length + 1) catcontents line line

/-! ### Taking a catalogue apart -/

/-- The `'\n'` at `tok`, and a `'\r'` in front of it, become terminators. -/
def cutLine (catcontents : List (BitVec 8)) (tok : ℕ) : Except Overrun (List (BitVec 8)) :=
  let catcontents := catcontents.set tok chNul
  if tok = 0 then .error .catcontents
  else if catcontents[tok - 1]? = some chCr then .ok (catcontents.set (tok - 1) chNul)
  else .ok catcontents

/-- A line that starts at `start` and ends at a terminator, and the index of the next free entry. -/
def catreadLine (k : Kitten) (start i : ℕ) : Except Overrun (Kitten × ℕ) :=
  match k.catcontents.drop start with
  | [] => .error .catcontents
  | c :: _ =>
      if ¬ (0x30 ≤ c ∧ c ≤ 0x39) then .ok (k, i)
      else
        match strchr (k.catcontents.drop start) chColon with
        | none => .error .catcontents
        | some none => .ok (k, i)
        | some (some n) =>
            let m := k.catcontents.set (start + n) chNul
            let msg := start + n + 1
            match strchr (m.drop start) chDot with
            | none => .error .catcontents
            | some none => .ok ({ k with catcontents := m }, i)
            | some (some d) =>
                let m := m.set (start + d) chNul
                let key := m.drop (start + d + 1)
                match mystrtoul (m.drop start) 10 (strEnd chNul (m.drop start)),
                  mystrtoul key 10 (strEnd chNul key) with
                | some key1, some key2 =>
                    if 0 ≤ key1.toInt ∧ 0 ≤ key2.toInt then
                      if i < 128 then
                        match processEscChars m msg with
                        | none => .error .catcontents
                        | some m =>
                            let entry : CatString := ⟨key1.setWidth 8, key2.setWidth 8, some msg⟩
                            .ok ({ k with catcontents := m, catpoints := k.catpoints.set i entry },
                              i + 1)
                      else .error .catpoints
                    else .ok ({ k with catcontents := m }, i)
                | _, _ => .error .catcontents

/-- The loop of `catread` over the lines. -/
def catreadLoop : ℕ → Kitten → ℕ → ℕ → Except Overrun Kitten
  | 0, _, _, _ => .error .catcontents
  | fuel + 1, k, start, i =>
      match strchr (k.catcontents.drop start) chLf with
      | none => .error .catcontents
      | some none => .ok k
      | some (some n) => do
          let m ← cutLine k.catcontents (start + n)
          let (k, i) ← catreadLine { k with catcontents := m } start i
          catreadLoop fuel k (start + n + 1) i

/-- `catpoints[i].text = NULL` for all entries. -/
def Kitten.clear (k : Kitten) : Kitten :=
  { k with catpoints := k.catpoints.map fun p => { p with text := none } }

/-- `catread`, from the point on where the file has been read into `catcontents`. -/
def parseCatalog (k : Kitten) (bs : List (BitVec 8)) : Except Overrun Kitten :=
  let catcontents := bs ++ List.replicate (8192 - bs.length) 0
  catreadLoop 8192 { k with catcontents } 0 0

/-! ### Lookup -/

/-- The loop of `kittengets` from entry `i` on. -/
def kittengetsLoop (setnum msgnum : BitVec 16) : List CatString → ℕ → Option (Option ℕ)
  | [], _ => none
  | p :: catpoints, i =>
      if p.key1.setWidth 16 ≠ setnum ∨ p.key2.setWidth 16 ≠ msgnum then
        if p.text = none ∨ 127 < i then some none
        else kittengetsLoop setnum msgnum catpoints (i + 1)
      else some p.text

/-- `kittengets`: the string that the result points to. -/
def kittengets (k : Kitten) (setnum msgnum : BitVec 16) (message : List (BitVec 8)) :
    Option (List (BitVec 8)) :=
  (kittengetsLoop setnum msgnum k.catpoints 0).map fun
    | none => message
    | some p => text chNul (k.catcontents.drop p)

/-! ### Calls of DOS -/

/-- A call of int 21h, with what it takes in registers: `AH = 3Dh`, `3Fh`, `40h` and `3Eh`. -/
inductive DosCall
  | open (filename : List (BitVec 8))
  | read (file : BitVec 16) (count : ℕ)
  | write (file : BitVec 16) (bs : List (BitVec 8))
  | close (file : BitVec 16)

/-- The calls with their answers: nothing when the carry flag is set, or else the handle, or what
has been stored at the pointer. -/
abbrev dosCalls : OpSig where
  Op := DosCall
  Res
    | .open _ => Option (BitVec 16)
    | .read _ count => Option { bs : List (BitVec 8) // bs.length ≤ count }
    | _ => Unit

/-- Code that calls DOS. -/
abbrev DosCode (α : Type) := Program dosCalls α

/-- `dos_open`. -/
def dosOpen (filename : List (BitVec 8)) : DosCode (BitVec 16) := do
  let r ← Program.op (S := dosCalls) (.open filename)
  return r.getD (-1)

/-- `dos_read`: what has been read; its length is the value of the source's function. -/
def dosRead (file : BitVec 16) (count : ℕ) : DosCode (List (BitVec 8)) := do
  let r ← Program.op (S := dosCalls) (.read file count)
  return (r.map Subtype.val).getD []

/-- `dos_write`, whose value nobody reads. -/
def dosWrite (file : BitVec 16) (bs : List (BitVec 8)) : DosCode Unit :=
  Program.op (S := dosCalls) (.write file bs)

/-- `dos_close`. -/
def dosClose (file : BitVec 16) : DosCode Unit := Program.op (S := dosCalls) (.close file)

/-- A text of the source. -/
def ascii (s : String) : List (BitVec 8) := s.toList.map fun c => BitVec.ofNat 8 c.toNat

/-- What a function returns together with the statics, unless the run has left an array. -/
abbrev Returned := Except Overrun (BitVec 16 × Kitten)

/-- `catread`. -/
def catread (k : Kitten) (catfile : List (BitVec 8)) : DosCode Returned := do
  let file ← dosOpen catfile
  if file.toInt < 0 then return .ok (0, k)
  else
    -- sizeof( catcontents ) - 1
    let bs ← dosRead file 8191
    if bs.length = 8191 ∨ bs.length < 1 then
      return .ok (0, { k.clear with catcontents := bs ++ List.replicate (8192 - bs.length) 0 })
    else
      match parseCatalog k.clear bs with
      | .error e => return .error e
      | .ok k => do
          dosClose file
          return .ok (1, k)

/-! ### Looking for a catalogue -/

/-- `memcpy( buf + o, bs, … )`, in the array `buf`. -/
def memcpyTo (buf : List (BitVec 8)) (o : ℕ) (bs : List (BitVec 8)) : Option (List (BitVec 8)) :=
  if o + bs.length ≤ buf.length then some (buf.take o ++ (bs ++ buf.drop (o + bs.length))) else none

/-- `strcpy( buf + o, s )`. -/
def strcpyTo (buf : List (BitVec 8)) (o : ℕ) (s : List (BitVec 8)) : Option (List (BitVec 8)) :=
  memcpyTo buf o (s ++ [chNul])

/-- `strcat( buf, s )`. -/
def strcatTo (buf s : List (BitVec 8)) : Option (List (BitVec 8)) :=
  strcpyTo buf (strEnd chNul buf) s

/-- Rule #1: `%NLSPATH%\%LANG%\cat`. -/
def ruleOne (catfile seg catlang name : List (BitVec 8)) : Option (List (BitVec 8)) := do
  let catfile ← memcpyTo catfile 0 seg
  let catfile ← strcpyTo catfile seg.length [chBackslash]
  let catfile ← strcatTo catfile catlang
  let catfile ← strcatTo catfile [chBackslash]
  strcatTo catfile name

/-- Rule #2: `%NLSPATH%\cat.%LANG%`, where the directory still is in `catfile`. -/
def ruleTwo (catfile : List (BitVec 8)) (toklen : ℕ) (catlang name : List (BitVec 8)) :
    Option (List (BitVec 8)) := do
  let catfile ← strcpyTo catfile toklen [chBackslash]
  let catfile ← strcatTo catfile name
  let catfile ← strcatTo catfile [chDot]
  strcatTo catfile catlang

/-- `_kitten_catalog = catread (catfile); if (_kitten_catalog) return (_kitten_catalog);`, and what
comes then. -/
def tryFile (k : Kitten) (catfile : List (BitVec 8)) (next : Kitten → DosCode Returned) :
    DosCode Returned := do
  match ← catread k catfile with
  | .error e => return .error e
  | .ok (kittenCatalog, k) =>
      let k := { k with kittenCatalog }
      if kittenCatalog ≠ 0 then return .ok (kittenCatalog, k) else next k

/-- The loop over the directories of `NLSPATH`. -/
def nlsLoop (catlang name : List (BitVec 8)) :
    ℕ → Kitten → List (BitVec 8) → List (BitVec 8) → DosCode Returned
  | 0, k, _, _ => return .ok (-1, k)
  | fuel + 1, k, catfile, nlsptr =>
      if nlsptr = [] then return .ok (-1, k)
      else
        let tok := (strchr (nlsptr ++ [chNul]) chSemicolon).join
        let toklen := tok.getD nlsptr.length
        if (toklen + 6 + name.length) % 65536 > 128 then do
          dosWrite 1 (ascii "NLSPATH overflow\r\n")
          return .ok (0, k)
        else
          match ruleOne catfile (nlsptr.take toklen) catlang name with
          | none => return .error .catfile
          | some catfile =>
              tryFile k (text chNul catfile) fun k =>
                match ruleTwo catfile toklen catlang name with
                | none => return .error .catfile
                | some catfile =>
                    tryFile k (text chNul catfile) fun k =>
                      match tok with
                      | none => return .ok (-1, k)
                      | some n => nlsLoop catlang name fuel k catfile (nlsptr.drop (n + 1))

/-- The environment variables `LANG` and `NLSPATH`. -/
structure NlsEnv where
  lang : Option (Str chNul)
  nlspath : Option (Str chNul)

/-- `kittenopen`, from the point on where it reads the environment. -/
def searchNls (env : NlsEnv) (k : Kitten) (catfile name : List (BitVec 8)) : DosCode Returned :=
  match env.lang with
  | none => return .ok (-1, k)
  | some lang =>
      if lang.chars.length < 2 ∨ (2 < lang.chars.length ∧ lang.chars[2]? ≠ some chHyphen) then
        return .ok (-1, k)
      else
        match env.nlspath with
        | none => return .ok (-1, k)
        | some nlspath =>
            nlsLoop (lang.chars.take 2) name (nlspath.chars.length + 1) k (catfile.set 0 chNul)
              nlspath.chars

/-- `kittenopen`. -/
def kittenopen (env : NlsEnv) (catfile : List (BitVec 8)) (k : Kitten) (name : Str chNul) :
    DosCode Returned :=
  if k.kittenCatalog ≠ 0 then do
    dosWrite 1 (ascii "cat already open\r\n")
    return .ok (-1, k)
  else
    let k := k.clear
    if name.chars.contains chBackslash then do
      dosWrite 1 (ascii "found \\\r\n")
      tryFile k name.chars fun k => searchNls env k catfile name.chars
    else searchNls env k catfile name.chars

/-- `kittenclose`. -/
def kittenclose (k : Kitten) : Kitten := { k with kittenCatalog := 0 }

end Vbsmount

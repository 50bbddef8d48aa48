/-
**The redirector: the resident int 2Fh handler (`redir.c`).**

DOS reaches the driver through the multiplex interrupt.  `Int2fRedirector` looks the function up in
a table, asks `IsCallForUs` whether the call is for one of the mounted drives, and either runs the
handler or chains to the previous owner of the interrupt.  `IsCallForUs` is not a pure test: its
searches run over the static `driveIdx` itself and leave it where they stop, and its last branch
fills the FCB name.

Main definitions:

* `Regs`, `DosState`, `Resident`, `State` — the register set of a call, the DOS structures as the
  call finds them, the statics of the driver, and all three together;
* `isCallForUs`, `dispatchTable`, `int2fRedirector` — the source's functions and its table;
* `route` — the part of `Int2fRedirector` up to the decision to run a handler.

The stack switch of the source is left out, and the handlers that are still empty there do nothing
here.
-/

import Vbsmount.FcbName
import Vbsmount.Ucs2

set_option relaxedAutoImplicit false
set_option autoImplicit false

namespace Vbsmount

open Bytes

namespace Redir

/-! ### State -/

/-- The register set of a call (`union INTPACK`). -/
structure Regs where
  ax : BitVec 16
  bx : BitVec 16
  cx : BitVec 16
  dx : BitVec 16
  si : BitVec 16
  di : BitVec 16
  bp : BitVec 16
  ds : BitVec 16
  es : BitVec 16
  flags : BitVec 16
  deriving DecidableEq

/-- The upper half of `AX`. -/
def Regs.ah (r : Regs) : BitVec 8 := r.ax.extractLsb' 8 8

/-- The lower half of `AX`. -/
def Regs.al (r : Regs) : BitVec 8 := r.ax.extractLsb' 0 8

/-- The DOS structures at a call.  `fcbName1` is memory from `fpFcbName1` on, so that a store behind
the eleven bytes of the name is visible; `fileName1` is memory from `fpFileName1` on. -/
structure DosState where
  sft : FarPtr → SFT
  cds : FarPtr → CDS
  sda : SDA
  sdb : SDB
  fdb : FDB
  fcbName1 : Mem
  fileName1 : List (BitVec 8)
  /-- What int 2Fh/120Dh answers. -/
  dosTime : BitVec 32
  /-- The word on top of the stack at entry. -/
  stackParam : BitVec 16

/-- The statics of the driver.  `volInfo` is memory from the array on, so that an index past its
end reads something. -/
structure Resident where
  volInfo : ℕ → VolInfo
  numMounts : ℕ
  driveIdx : ℕ

/-- A call in progress. -/
structure State where
  res : Resident
  dos : DosState
  r : Regs

/-- The structure `MK_FP( r->w.es, r->w.di )` points to. -/
def Regs.esdi (r : Regs) : FarPtr := mkFp r.es r.di

/-! ### Handlers -/

/-- The carry flag. -/
def intrCf : BitVec 16 := 1

/-- `Success`. -/
def success (s : State) : State :=
  { s with r := { s.r with flags := s.r.flags &&& ~~~intrCf, ax := 0 } }

/-- `InstallationCheck`. -/
def installationCheck (s : State) : State := { s with r := { s.r with ax := 0x00FF } }

def rmDir (s : State) : State := s
def mkDir (s : State) : State := s
def chDir (s : State) : State := s
def closeFile (s : State) : State := s
def commitFile (s : State) : State := s
def readFile (s : State) : State := s
def writeFile (s : State) : State := s
def lockFile (s : State) : State := s
def unlockFile (s : State) : State := s
def getDiskSpace (s : State) : State := s
def getFileAttrib (s : State) : State := s
def setFileAttrib (s : State) : State := s

/-- `OpenOrCreateFile`, which ignores its arguments so far. -/
def openOrCreateFile (_extAction _extMode _extAttr : BitVec 16) (s : State) : State := s

/-- `OpenFile`: `EXTENDED_OPEN`, and the five file attributes. -/
def openFile (s : State) : State :=
  openOrCreateFile 0x01 ((s.dos.sda.openMode &&& 3).setWidth 16) 0x27 s

/-- `CreateFile`: `EXTENDED_CREATE | EXTENDED_REPLACE` and `MODE_READWRITE`. -/
def createFile (s : State) : State :=
  openOrCreateFile 0x12 0x02 ((s.dos.stackParam.setWidth 8).setWidth 16) s

/-- `SpecialOpen`. -/
def specialOpen (s : State) : State :=
  openOrCreateFile s.dos.sda.extAction (s.dos.sda.extMode &&& 0x7F) s.dos.sda.extAttr s

def findNext (s : State) : State := s
def deleteFile (s : State) : State := s
def renameFile (s : State) : State := s

/-- The bits that `FindFirst` adds to the drive number in the search block. -/
def sdbDriveFlag : BitVec 8 := 0x80

/-- `FindFirst`: a search for the volume label is answered from the mount table. -/
def findFirst (s : State) : State :=
  if s.dos.sda.attrMask = aVolid then
    let vol := s.res.volInfo s.res.driveIdx
    { s with
      dos := { s.dos with
        sdb := { s.dos.sdb with
          driveNumber := vol.driveNum ||| sdbDriveFlag
          dirEntryNum := 0
          searchMask := fmemcpyLocal s.dos.sdb.searchMask s.dos.fcbName1 11 }
        fdb := { s.dos.fdb with
          fileAttr := aVolid
          fileTime := s.dos.dosTime
          fileSize := 0
          fileName := cpUcs2ToLocal s.dos.fdb.fileName vol.ucs2label 11 } } }
  else s

/-! ### Routing -/

/-- `for ( driveIdx = 0; driveIdx < numMounts; ++driveIdx ) if ( p ) return 1; return 0;`, with the
static itself as the loop counter. -/
def driveSearch (p : VolInfo → Bool) (s : State) : Bool × State :=
  let driveIdx := Search.scan (fun k => p (s.res.volInfo k)) 0 s.res.numMounts
  (decide (driveIdx < s.res.numMounts), { s with res := { s.res with driveIdx := driveIdx } })

/-- The test of the handle-based functions against one mount. -/
def sftIsOn (sft : SFT) (vol : VolInfo) : Bool :=
  sft.devInfoWord &&& 0x3F == vol.driveNum.setWidth 16

/-- The test of `FindNext` against one mount. -/
def sdbIsOn (sdb : SDB) (vol : VolInfo) : Bool :=
  sdb.driveNumber &&& 0x40 != 0 && sdb.driveNumber &&& 0x1F == vol.driveNum

/-- `IsCallForUs`. -/
def isCallForUs (function : BitVec 8) (s : State) : Bool × State :=
  if function = 0x00 then (true, s)
  else if function = 0x21 ∨ (0x06 ≤ function ∧ function ≤ 0x0B) then
    driveSearch (sftIsOn (s.dos.sft s.r.esdi)) s
  else if function = 0x1C then driveSearch (sdbIsOn s.dos.sdb) s
  -- the CDS of the drive asked about is in es:di
  else if function = 0x0C ∧ (s.dos.cds s.r.esdi).Ours then (true, s)
  else if (s.dos.cds s.dos.sda.currentCDS).Ours then
    (true, { s with dos := { s.dos with
      fcbName1 := fillFcbName s.dos.fcbName1 s.dos.fileName1 } })
  else (false, s)

/-- `dispatchTable`; `none` is a `NULL` entry. -/
def dispatchTable : List (Option (State → State)) :=
  [some installationCheck,  -- 0x00
   some rmDir,              -- 0x01
   none,                    -- 0x02
   some mkDir,              -- 0x03
   none,                    -- 0x04
   some chDir,              -- 0x05
   some closeFile,          -- 0x06
   some commitFile,         -- 0x07
   some readFile,           -- 0x08
   some writeFile,          -- 0x09
   some lockFile,           -- 0x0A
   some unlockFile,         -- 0x0B
   some getDiskSpace,       -- 0x0C
   none,                    -- 0x0D
   some setFileAttrib,      -- 0x0E
   some getFileAttrib,      -- 0x0F
   none,                    -- 0x10
   some renameFile,         -- 0x11
   none,                    -- 0x12
   some deleteFile,         -- 0x13
   none,                    -- 0x14
   none,                    -- 0x15
   some openFile,           -- 0x16
   some createFile,         -- 0x17
   none,                    -- 0x18
   none,                    -- 0x19
   none,                    -- 0x1A
   some findFirst,          -- 0x1B
   some findNext,           -- 0x1C
   none,                    -- 0x1D
   none,                    -- 0x1E
   none,                    -- 0x1F
   none,                    -- 0x20
   none,                    -- 0x21
   none,                    -- 0x22
   none,                    -- 0x23
   none,                    -- 0x24
   none,                    -- 0x25
   none,                    -- 0x26
   none,                    -- 0x27
   none,                    -- 0x28
   none,                    -- 0x29
   none,                    -- 0x2A
   none,                    -- 0x2B
   none,                    -- 0x2C
   none,                    -- 0x2D
   some specialOpen]        -- 0x2E

def maxFunction : BitVec 8 := 0x2E

/-- `dispatchTable[al]`. -/
def dispatch (al : BitVec 8) : Option (State → State) := (dispatchTable[al.toNat]?).join

/-- What `Int2fRedirector` does before it runs a handler or chains: the handler, if the call is
claimed, and the state in which it starts. -/
def route (s : State) : Option (State → State) × State :=
  if s.r.ah ≠ 0x11 ∨ maxFunction < s.r.al then (none, s)
  else
    match dispatch s.r.al with
    | none => (none, s)
    | some currFunction =>
        match isCallForUs s.r.al s with
        | (true, s') => (some currFunction, s')
        | (false, s') => (none, s')

/-- How a call leaves the driver. -/
inductive Disposition
  | chained
  | claimed
  deriving DecidableEq

/-- `Int2fRedirector`. -/
def int2fRedirector (s : State) : Disposition × State :=
  match route s with
  | (none, s') => (.chained, s')
  | (some currFunction, s') => (.claimed, currFunction (success s'))

/-! ### What routing does -/

section

variable {s : State}

/-- What `IsCallForUs` can do to the state: move the index, fill the FCB name, or nothing. -/
theorem isCallForUs_frame (function : BitVec 8) :
    (isCallForUs function s).2.r = s.r ∧
      (isCallForUs function s).2.res.volInfo = s.res.volInfo ∧
      (isCallForUs function s).2.res.numMounts = s.res.numMounts ∧
      ∃ fcbName1, (isCallForUs function s).2.dos = { s.dos with fcbName1 := fcbName1 } := by
  unfold isCallForUs
  split_ifs
  · exact ⟨rfl, rfl, rfl, s.dos.fcbName1, rfl⟩
  · exact ⟨rfl, rfl, rfl, s.dos.fcbName1, rfl⟩
  · exact ⟨rfl, rfl, rfl, s.dos.fcbName1, rfl⟩
  · exact ⟨rfl, rfl, rfl, s.dos.fcbName1, rfl⟩
  · exact ⟨rfl, rfl, rfl, fillFcbName s.dos.fcbName1 s.dos.fileName1, rfl⟩
  · exact ⟨rfl, rfl, rfl, s.dos.fcbName1, rfl⟩

/-- The routing of a call of the driver's own multiplex number, with a handler in the table. -/
theorem route_of_dispatch {f : State → State} (hah : s.r.ah = 0x11) (hal : s.r.al ≤ maxFunction)
    (hf : dispatch s.r.al = some f) :
    route s = (if (isCallForUs s.r.al s).1 = true then some f else none, (isCallForUs s.r.al s).2) := by
  have hguard : ¬ (s.r.ah ≠ 0x11 ∨ maxFunction < s.r.al) := by
    rintro (h | h)
    · exact h hah
    · exact absurd hal (by simpa using h)
  rw [route, if_neg hguard, hf]
  generalize isCallForUs s.r.al s = out
  obtain ⟨b, s'⟩ := out
  cases b <;> rfl

end

end Redir

end Vbsmount

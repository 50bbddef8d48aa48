/-
**The DOS structures the driver and its loader work on.**

The records follow `dosdefs.h` and `redir.h` field by field, with the fields that some function of
the program reads or writes; a far pointer is one 32-bit value, segment above offset, and an array
of bytes is memory seen from its first byte.

Main definitions:

* `FarPtr`, `mkFp` — far pointers;
* `CDS`, `SFT`, `SDB`, `FDB`, `SDA` — the current directory structure of a drive, an open file,
  the search and the found-entry blocks, and the part of the swappable data area the redirector
  looks at;
* `VolInfo`, `Signature` — one mount of the driver, and the record that identifies the resident
  copy.
-/

import Vbsmount.Lib.Bytes

set_option relaxedAutoImplicit false
set_option autoImplicit false

namespace Vbsmount

open Bytes

/-! ### Pointers and constants -/

/-- A real-mode far pointer: the segment in the upper word, the offset in the lower one. -/
abbrev FarPtr := BitVec 32

/-- `MK_FP( seg, off )`. -/
def mkFp (seg off : BitVec 16) : FarPtr := seg ++ off

/-- `MK_LINEAR( seg, off )`: the linear address of a near pointer. -/
def mkLinear (seg off : BitVec 16) : BitVec 32 :=
  (seg.setWidth 32 <<< 4) + off.setWidth 32

/-- The character constant `'SF'`. -/
def vbsmountMagic : BitVec 16 := 0x5346

def maxMounts : ℕ := 16

/-- `NETWORK`, bit 15 of the flags of a CDS. -/
def network : BitVec 16 := 1 <<< 15

/-- `PHYSICAL`, bit 14 of the flags of a CDS. -/
def physical : BitVec 16 := 1 <<< 14

/-- `_A_VOLID`, the volume label attribute. -/
def aVolid : BitVec 8 := 0x08

/-! ### Characters -/

/-- The terminator of a string. -/
def chNul : BitVec 8 := 0x00

/-- The character `'A'`. -/
def chA : BitVec 8 := 0x41

/-- The blank that fills the names of an FCB. -/
def chBlank : BitVec 8 := 0x20

/-- The character `'.'`. -/
def chDot : BitVec 8 := 0x2E

/-- The character `'\\'`. -/
def chBackslash : BitVec 8 := 0x5C

@[simp] theorem chDot_ne_chNul : chDot ≠ chNul := by decide

@[simp] theorem chBackslash_ne_chNul : chBackslash ≠ chNul := by decide

@[simp] theorem chDot_ne_chBackslash : chDot ≠ chBackslash := by decide

/-- The characters of a string constant, with its terminator. -/
def cstring (str : String) : List (BitVec 8) :=
  str.toList.map (fun c => BitVec.ofNat 8 c.toNat) ++ [chNul]

/-! ### Structures of DOS -/

/-- The current directory structure of a drive. -/
structure CDS where
  currentPath : Mem
  flags : BitVec 16
  redirIFSRecordPtr : FarPtr
  parameter : BitVec 16

/-- The CDS carries the mark of the driver. -/
def CDS.Ours (cds : CDS) : Prop := cds.parameter = vbsmountMagic

instance (cds : CDS) : Decidable cds.Ours := inferInstanceAs (Decidable (_ = _))

/-- The entry of an open file in the system file table. -/
structure SFT where
  devInfoWord : BitVec 16

/-- The search data block of a find-first/find-next sequence. -/
structure SDB where
  driveNumber : BitVec 8
  searchMask : Mem
  attrMask : BitVec 8
  dirEntryNum : BitVec 16
  dirHandle : BitVec 32
  isRoot : BitVec 8

/-- The directory entry of a found file. -/
structure FDB where
  fileName : Mem
  fileAttr : BitVec 8
  fileTime : BitVec 32
  fileSize : BitVec 32

/-- The swappable data area, as far as the redirector reads it. -/
structure SDA where
  attrMask : BitVec 8
  openMode : BitVec 8
  extAction : BitVec 16
  extAttr : BitVec 16
  extMode : BitVec 16
  currentCDS : FarPtr

/-! ### Structures of the driver -/

/-- One mounted drive: its number, and the first eleven characters of the share name, blank
padded. -/
structure VolInfo where
  driveNum : BitVec 8
  ucs2label : ℕ → BitVec 16

/-- What a CDS of ours points to: the record that identifies the resident driver. -/
structure Signature where
  signature : Mem
  ourHandler : FarPtr
  previousHandler : FarPtr
  pciPort : BitVec 16
  clientId : BitVec 32

end Vbsmount

/-
**What the program prints (`main.c`, `messages.h`, `globals.h`).**

Every message has a level, and is printed if the static `verbosity` has reached it.  Most messages
go through the catalogue first: `catgets` replaces the program's own text by the one of the
catalogue, if that has one.  Here the functions that print are those of the transient part with the
statics of the console on the side.

Main definitions:

* `Stream`, `Arg`, `Printed` — a call of `fputs` or `fprintf` that has been made;
* `Console` — `verbosity`, the statics of the catalogue, and what has been printed;
* `verbFputs`, `verbFprintf` — the macros;
* `printUsageAndExit`, `vboxAuxGetVersionAloud`, `listSharesAloud`, `mainAloud` and the like — the
  functions of the source with their messages.

The conversions of `fprintf` and the text of `MSG_COPYRIGHT` are left out, and so are the messages
of `UninstallDriver`, which nothing calls.
-/

import Vbsmount.Kitten
import Vbsmount.Lib.Aside
import Vbsmount.Main

set_option relaxedAutoImplicit false
set_option autoImplicit false

namespace Vbsmount

open Bytes VmmDev CString

/-! ### Messages -/

/-- A message that goes through the catalogue: what `catgets` is called with. -/
structure Message where
  setnum : BitVec 16
  msgnum : BitVec 16
  text : List (BitVec 8)

def msgHelp1 : Message := ⟨0, 1, ascii "\nUsage:\n"⟩
def msgHelp2 : Message := ⟨0, 2, ascii "   %s [/H][/V|/Q|/QQ] [/T]\n"⟩
def msgHelp3 : Message := ⟨0, 3, ascii "   %s [/V|/Q/QQ] /U\n"⟩
def msgHelp4 : Message :=
  ⟨0, 4, ascii "        /H                  - Prints this message and exits\n"⟩
def msgHelp5 : Message :=
  ⟨0, 5, ascii "        /V                  - Verbose: Prints information on system resources\n"⟩
def msgHelp6 : Message :=
  ⟨0, 6, ascii "        /Q                  - Quiet: Omits copyright message\n"⟩
def msgHelp7 : Message :=
  ⟨0, 7, ascii "        /QQ                 - Silent: Does not print any messages at all\n"⟩
def msgHelp8 : Message :=
  ⟨0, 8, ascii "        /T                  - Test only: List shared folders and status\n"⟩
def msgHelp9 : Message := ⟨0, 9,
  ascii "                              (With /QQ just checks if running on VirtualBox)\n"⟩
def msgHelp19 : Message := ⟨0, 19, ascii "        /U                  - Uninstall\n"⟩
def msgErrorWrongos : Message :=
  ⟨1, 2, ascii " ERROR: Usupported DOS version %d.%d. Need 5.0 or higher.\n"⟩
def msgErrorNovirt : Message := ⟨1, 3, ascii " ERROR: Not running on top of VirtualBox.\n"⟩
def msgErrorLol : Message := ⟨1, 5, ascii " ERROR: Can't get the List-Of-Lists!\n"⟩
def msgErrorRedirNotAllowed : Message := ⟨1, 6, ascii " ERROR: Redirectors are not allowed.\n"⟩
def msgErrorNoshf : Message := ⟨1, 8, ascii " ERROR: No Shared Folders found.\n"⟩
def msgErrorNotinstalled : Message := ⟨1, 13, ascii " ERROR: Driver not installed.\n"⟩
def msgInfoVbxvers : Message := ⟨10, 0, ascii " INFO: Running on VirtualBox %u.%u.%lu r%lu\n"⟩

/-- `stdout` and `stderr`. -/
inductive Stream
  | stdout
  | stderr
  deriving DecidableEq

/-- An argument of `fprintf`. -/
inductive Arg
  | str (s : List (BitVec 8))
  | num (n : ℕ)
  deriving DecidableEq

/-- The text of a call: `MSG_MY_NAME`, `MSG_COPYRIGHT`, or what `catgets` has returned. -/
inductive Text
  | myName
  | copyright
  | got (text : Option (List (BitVec 8)))
  deriving DecidableEq

/-- A call of `fputs` or `fprintf`. -/
inductive Printed
  | fputs (text : Text) (stream : Stream)
  | fprintf (stream : Stream) (format : Text) (args : List Arg)
  deriving DecidableEq

/-- The text of a message, by the catalogue. -/
def Message.got (msg : Message) (k : Kitten) : Text :=
  .got (kittengets k msg.setnum msg.msgnum msg.text)

/-! ### The console -/

/-- The values of `Verbosity`. -/
def Verbosity.value : Verbosity → ℕ
  | .silent => 0
  | .quiet => 1
  | .normal => 2
  | .verbose => 3

/-- `verbosity >= level`. -/
def Verbosity.Reaches (v level : Verbosity) : Prop := level.value ≤ v.value

instance (v level : Verbosity) : Decidable (v.Reaches level) :=
  inferInstanceAs (Decidable (_ ≤ _))

/-- The static `verbosity`, those of the catalogue, and what has been printed. -/
structure Console where
  verbosity : Verbosity
  kitten : Kitten
  printed : List Printed

/-- Transient code that prints. -/
abbrev Aloud (α : Type) := StateT Console Code α

def Console.print (c : Console) (p : Kitten → Printed) : Console :=
  { c with printed := c.printed ++ [p c.kitten] }

/-- `VERB_FPUTS` of a message. -/
def verbFputs (level : Verbosity) (msg : Message) (stream : Stream) : Aloud Unit := do
  if (← get).verbosity.Reaches level then
    modify fun c => c.print fun k => .fputs (msg.got k) stream

/-- `VERB_FPRINTF`; the arguments are evaluated if the level has been reached. -/
def verbFprintf (level : Verbosity) (stream : Stream) (format : Kitten → Text)
    (args : Code (List Arg)) : Aloud Unit := do
  if (← get).verbosity.Reaches level then
    let args ← args
    modify fun c => c.print fun k => .fprintf stream (format k) args

/-- `VBSMOUNT`, to which `myName` points, `VERSION_MAJOR` and `VERSION_MINOR`. -/
def vbsmount : List (BitVec 8) := ascii "VBSMOUNT"
def versionMajor : ℕ := 0
def versionMinor : ℕ := 1

/-! ### The functions of the source -/

/-- `PrintUsageAndExit`. -/
def printUsageAndExit (err : BitVec 16) : Aloud Outcome := do
  verbFprintf .normal .stderr (fun _ => .myName)
    (pure [.str vbsmount, .num versionMajor, .num versionMinor])
  verbFprintf .normal .stderr (fun _ => .copyright) (pure [])
  verbFputs .quiet msgHelp1 .stderr
  verbFprintf .quiet .stderr msgHelp2.got (pure [.str vbsmount])
  verbFprintf .quiet .stderr msgHelp3.got (pure [.str vbsmount])
  verbFputs .quiet msgHelp4 .stderr
  verbFputs .quiet msgHelp5 .stderr
  verbFputs .quiet msgHelp6 .stderr
  verbFputs .quiet msgHelp7 .stderr
  verbFputs .quiet msgHelp8 .stderr
  verbFputs .quiet msgHelp9 .stderr
  verbFputs .quiet msgHelp19 .stderr
  return .exited err

/-- `request.hostVersion.major`, `minor`, `build` and `revision`. -/
def hostVersion : Code (List Arg) := do
  let version ← load32 24
  let build ← load32 28
  let revision ← load32 32
  return [.num (version.extractLsb' 0 16).toNat, .num (version.extractLsb' 16 16).toNat,
    .num build.toNat, .num revision.toNat]

section Aloud

variable (lay : Layout)

/-- `VBoxAuxGetVersion`. -/
def vboxAuxGetVersionAloud (pciPort : BitVec 16) : Aloud (BitVec 16) := do
  let ret ← vboxAuxSendRequest lay pciPort reqGetHostVersion 40
  if ret = vinfSuccess then
    verbFprintf .verbose .stdout msgInfoVbxvers.got hostVersion
    return ok
  else return fail

/-- `VBoxAuxInitVirtual`. -/
def vboxAuxInitVirtualAloud (pciPort : BitVec 16) : Aloud (BitVec 16 × BitVec 16) := do
  segread
  let (ret, pciPort) ← vboxAuxVBoxBackdoorInit lay pciPort
  if ret ≠ 0 then return (ret, pciPort)
  else
    let ret ← vboxAuxGetVersionAloud lay pciPort
    return (ret, pciPort)

/-- `main` from the list of available shares on. -/
def listSharesAloud (pciPort : BitVec 16) (clientId : BitVec 32) : Aloud Outcome := do
  let (ret, numMappings) ← vboxAuxShflGetMappings lay pciPort clientId shflMaxMappings
  mark (.gotMappings ret)
  if ret ≠ vinfSuccess then
    errorLabel lay pciPort clientId errNoShf
  else
    let ret ← mappingLoop lay pciPort clientId numMappings.toNat 0 ret
    if ret ≠ errSuccess then
      verbFputs .quiet msgErrorNoshf .stderr
    errorLabel lay pciPort clientId ret

/-- `main`, where the driver is not installed. -/
def openSessionAloud (inv : Invocation) (uninstall : BitVec 16) : Aloud Outcome := do
  if uninstall ≠ 0 then
    verbFputs .quiet msgErrorNotinstalled .stderr
    return .returned errNotInst
  else if inv.installationCheck = 0x01 then
    verbFputs .quiet msgErrorRedirNotAllowed .stderr
    return .returned errNoAllwd
  else
    let (ret, pciPort) ← vboxAuxInitVirtualAloud lay inv.pciPort
    if fail = ret then
      verbFputs .quiet msgErrorNovirt .stderr
      return .returned errNoVirt
    else
      let (ret, clientId) ← vboxAuxBeginSession lay pciPort inv.clientId
      if fail = ret then
        verbFputs .quiet msgErrorNoshf .stderr
        return .returned errNoShf
      else
        mark (.sessionOpened pciPort clientId)
        listSharesAloud lay pciPort clientId

/-- `main`, once the command line has been read. -/
def mainAloudFrom (inv : Invocation) (osminor : BitVec 8) (options : Options) : Aloud Outcome := do
  verbFprintf .quiet .stderr (fun _ => .myName)
    (pure [.str vbsmount, .num versionMajor, .num versionMinor])
  verbFprintf .normal .stdout (fun _ => .copyright) (pure [])
  if ¬ inv.runningIn386OrHigher then
    verbFputs .quiet msgErrorNovirt .stderr
    return .returned errNoVirt
  else if inv.osmajor < 5 then
    verbFprintf .quiet .stderr msgErrorWrongos.got
      (pure [.num inv.osmajor.toNat, .num osminor.toNat])
    return .returned errWrongOs
  else if inv.noSysVars then
    verbFputs .quiet msgErrorLol .stderr
    return .returned errSystem
  else
    let d ← getDos
    let (installed, d) := alreadyInstalled { d with prevInt2fHandler := d.vect2f }
    setDos d
    match installed with
    | some (pciPort, clientId) => listSharesAloud lay pciPort clientId
    | none => openSessionAloud lay inv options.uninstall

/-- `main`, once the catalogue is open. -/
def mainAloud (inv : Invocation) (osminor : BitVec 8) : Aloud Outcome := do
  let (ret, options) := getOptions inv.argString Options.start
  modify fun c => { c with verbosity := options.verbosity }
  if ret = 1 then
    modify fun c => { c with verbosity := .normal }
    printUsageAndExit errSuccess
  else if ret = 2 then printUsageAndExit errBadOpts
  else mainAloudFrom lay inv osminor options

end Aloud

end Vbsmount

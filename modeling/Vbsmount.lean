import Vbsmount.Lib.Program
import Vbsmount.Lib.Cost
import Vbsmount.Lib.Aside
import Vbsmount.Lib.Bytes
import Vbsmount.Lib.Search
import Vbsmount.Lib.CString
import Vbsmount.Lib.Lines
import Vbsmount.Lib.InPlace
import Vbsmount.Lib.Encoding
import Vbsmount.Lib.BlockMove
import Vbsmount.Lib.Wildcard
import Vbsmount.Dos
import Vbsmount.Miniclib
import Vbsmount.MemCopy
import Vbsmount.FcbName
import Vbsmount.FcbRoundTrip
import Vbsmount.FcbName83
import Vbsmount.NameMask
import Vbsmount.Ucs2
import Vbsmount.Ucs2ToLocal
import Vbsmount.CodePage
import Vbsmount.Redir
import Vbsmount.RedirRouting
import Vbsmount.RedirHistory
import Vbsmount.RedirSearch
import Vbsmount.RedirFrame
import Vbsmount.FcbBuffer
import Vbsmount.VmmDev
import Vbsmount.HgcmInterleaving
import Vbsmount.HostReply
import Vbsmount.VBoxAux
import Vbsmount.Requests
import Vbsmount.Installed
import Vbsmount.ResidentSearch
import Vbsmount.Options
import Vbsmount.OptionsGrammar
import Vbsmount.Main
import Vbsmount.MainSession
import Vbsmount.MainStatus
import Vbsmount.MappingCount
import Vbsmount.Conversation
import Vbsmount.Listing
import Vbsmount.MainFrame
import Vbsmount.Kitten
import Vbsmount.KittenEscape
import Vbsmount.KittenCatalog
import Vbsmount.KittenBounds
import Vbsmount.KittenRoundTrip
import Vbsmount.KittenOpen
import Vbsmount.KittenSession
import Vbsmount.Console
import Vbsmount.MainConsole

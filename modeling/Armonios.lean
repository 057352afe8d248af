import Armonios.Lib.Wp
import Armonios.Lib.Chain
import Armonios.Fat32.Device
import Armonios.Fat32.Name
import Armonios.Fat32.Table
import Armonios.Fat32.Driver
import Armonios.Lib.Overlay
import Armonios.Fat32.Volume
import Armonios.Fat32.TableSpec
import Armonios.Fat32.DirSpec
import Armonios.Fat32.ReadSpec
import Armonios.Fat32.Grow
import Armonios.Fat32.Entry
import Armonios.Fat32.WriteSpec
import Armonios.Fat32.WriteCall
import Armonios.Fat32.Returns
import Armonios.Fat32.Contents
import Armonios.Fat32.DirOps
import Armonios.Lib.Run
import Armonios.Fat32.Runs
import Armonios.Fat32.Faults
import Armonios.Fat32.Tidy
import Armonios.Fat32.Reliable
import Armonios.Vfs.Table
import Armonios.Vfs.Fat
import Armonios.Vfs.Effect
import Armonios.Vfs.Descriptors
import Armonios.Vfs.Handle
import Armonios.Vfs.Unlink
import Armonios.Vfs.Alias
import Armonios.Vfs.Open
import Armonios.Vfs.Tmpfs
import Armonios.Vfs.TmpfsSlots
import Armonios.Vfs.TmpfsMap
import Armonios.Vfs.Backends
import Armonios.Lib.Tree
import Armonios.Lib.Owner
import Armonios.Mm.Pmm
import Armonios.Mm.PmmPool
import Armonios.Mm.PmmBitmap
import Armonios.Mm.Vmm
import Armonios.Mm.VmmSpec
import Armonios.Process.Table
import Armonios.Process.UserVm
import Armonios.Process.Spawn
import Armonios.Process.Trap
import Armonios.Process.Machine
import Armonios.Process.Keep
import Armonios.Process.Switch
import Armonios.Process.Context
import Armonios.Process.Fair
import Armonios.Process.Roster
import Armonios.Process.Argv
import Armonios.Process.ArgvStack
import Armonios.Process.Files
import Armonios.Process.OpenFiles
import Armonios.Process.Stdin
import Armonios.Fat32.Confine
import Armonios.Process.Regions
import Armonios.Process.Space
import Armonios.Process.Mapped
import Armonios.Process.Load
import Armonios.Process.Memory
import Armonios.Process.Isolation
import Armonios.Process.Pages
import Armonios.Process.Tlb
import Armonios.Lib.Scan
import Armonios.Ipc.Queue
import Armonios.Process.Named
import Armonios.Process.Mail
import Armonios.Lib.Paint
import Armonios.Lib.Loop
import Armonios.Gui.Fb
import Armonios.Gui.Desktop
import Armonios.Gui.Pool
import Armonios.Gui.Input
import Armonios.Gui.Layout
import Armonios.Gui.Stack
import Armonios.Gui.Focus
import Armonios.Gui.Drag
import Armonios.Gui.Events
import Armonios.Gui.Damage
import Armonios.Gui.Resize
import Armonios.Gui.Compositor
import Armonios.Gui.Redraw
import Armonios.Gui.Keyboard
import Armonios.Drivers.VirtioBlk
import Armonios.Drivers.VirtioNetTx
import Armonios.Drivers.VirtioNetRx
import Armonios.Lib.LapRing
import Armonios.Drivers.XhciRing
import Armonios.Drivers.XhciTransfer
import Armonios.Lib.Bump
import Armonios.Drivers.Pci
import Armonios.Drivers.PciAssign
import Armonios.Lib.Switches
import Armonios.Drivers.Hid
import Armonios.Drivers.HidPoll
import Armonios.Lib.Groups
import Armonios.Drivers.UsbWalk
import Armonios.Drivers.UsbConfig
import Armonios.Mm.VmmRoom
import Armonios.Process.MmapFails
import Armonios.Vfs.MountTable
import Armonios.Net.DhcpOptions
import Armonios.Net.Dhcp
import Armonios.Net.Requests
import Armonios.Fat32.NameSpec
import Armonios.Programs.Files
import Armonios.Fat32.Mount
import Armonios.Fat32.FreeSearch
import Armonios.Lib.Orbit
import Armonios.Fat32.Walks
import Armonios.Lib.Lines
import Armonios.Fat32.Listing
import Armonios.Fat32.Created
import Armonios.Fat32.Distinct
import Armonios.Programs.Editor
import Armonios.Programs.Notes
import Armonios.Programs.SavedNotes
import Armonios.Gui.SharedBuffers
import Armonios.Net.FrameReads
import Armonios.Lib.OnesComplement
import Armonios.Net.Checksum
import Armonios.Process.CallValues
import Armonios.Process.UserStrings
import Armonios.Process.RegionRuns
import Armonios.Process.UserImages
import Armonios.Gui.DamageCover
import Armonios.Gui.Ink
import Armonios.Gui.WindowPaint
import Armonios.Gui.WindowRules
import Armonios.Gui.OwnDrawing
import Armonios.Fat32.ChainWalks
import Armonios.Gui.Line
import Armonios.Lib.Stores
import Armonios.Gui.FbBuffer
import Armonios.Lib.Decimal
import Armonios.Console.Numbers
import Armonios.Programs.Format
import Armonios.Lib.Caret
import Armonios.Programs.EditorText
import Armonios.Drivers.Input
import Armonios.Console.Mouse
import Armonios.Drivers.PciMixed
import Armonios.Dtb.Tokens
import Armonios.Dtb.MemoryNode
import Armonios.Mm.VmmMap
import Armonios.Lib.Linked
import Armonios.Lib.Tiling
import Armonios.Mm.Kheap
import Armonios.Mm.KheapBlocks
import Armonios.Mm.KheapArenas
import Armonios.Mm.KheapCalls
import Armonios.Mm.KheapRun
import Armonios.Process.Pids
import Armonios.Gui.Owners
import Armonios.Process.OwnedWindows
import Armonios.Drivers.XhciWaits
import Armonios.Tools.Mkfat32Image
import Armonios.Sched.Threads
import Armonios.Programs.ShellPath
import Armonios.Programs.ShellWindow

import Hashx86.Audio.Mix
import Hashx86.Audio.Mixer
import Hashx86.Audio.Samples
import Hashx86.Audio.Wav
import Hashx86.Boot.InitMemory
import Hashx86.Drivers.Ac97
import Hashx86.Drivers.InputQueues
import Hashx86.Drivers.Keyboard
import Hashx86.Drivers.Mouse
import Hashx86.Drivers.Vbe
import Hashx86.Elf.Defs
import Hashx86.Elf.Pages
import Hashx86.Elf.Process
import Hashx86.Elf.Segment
import Hashx86.Explorer.Browse
import Hashx86.Fs.Cursor
import Hashx86.Fs.Descriptors
import Hashx86.Fs.DiskIo
import Hashx86.Gui.Arranged
import Hashx86.Gui.Arrangement
import Hashx86.Gui.Blit
import Hashx86.Gui.Bmp
import Hashx86.Gui.BoxLayout
import Hashx86.Gui.Chain
import Hashx86.Gui.Circle
import Hashx86.Gui.ComboBox
import Hashx86.Gui.Cover
import Hashx86.Gui.Cursor
import Hashx86.Gui.Disabled
import Hashx86.Gui.Events
import Hashx86.Gui.FontFile
import Hashx86.Gui.GridLayout
import Hashx86.Gui.HitTest
import Hashx86.Gui.LayoutSpots
import Hashx86.Gui.Line
import Hashx86.Gui.ListLayout
import Hashx86.Gui.ListView
import Hashx86.Gui.MathUtil
import Hashx86.Gui.Outlines
import Hashx86.Gui.PostPresent
import Hashx86.Gui.Rectangles
import Hashx86.Gui.Relayout
import Hashx86.Gui.Release
import Hashx86.Gui.Resolution
import Hashx86.Gui.ScrollBar
import Hashx86.Gui.ScrollContainer
import Hashx86.Gui.Sizing
import Hashx86.Gui.Slider
import Hashx86.Gui.Surface
import Hashx86.Gui.TabOrder
import Hashx86.Gui.TabStops
import Hashx86.Gui.Taskbar
import Hashx86.Gui.TerminalView
import Hashx86.Gui.Text
import Hashx86.Gui.TextFields
import Hashx86.Kstack.Guard
import Hashx86.Kstack.Stacks
import Hashx86.Lib.Buffers
import Hashx86.Lib.CString
import Hashx86.Lib.Cells
import Hashx86.Lib.EditString
import Hashx86.Lib.Grid
import Hashx86.Lib.LineWalk
import Hashx86.Lib.Lines
import Hashx86.Lib.Linked
import Hashx86.Lib.LongDivision
import Hashx86.Lib.ModifyFold
import Hashx86.Lib.Nearest
import Hashx86.Lib.PathForm
import Hashx86.Lib.Raster
import Hashx86.Lib.Reader
import Hashx86.Lib.Saturate
import Hashx86.Lib.SlashPath
import Hashx86.Lib.Strip
import Hashx86.Lib.ToEnd
import Hashx86.Lib.While
import Hashx86.Lib.Word32
import Hashx86.Lib.Word64
import Hashx86.Module.Loader
import Hashx86.Paging.Directories
import Hashx86.Paging.Sweep
import Hashx86.Paging.Within
import Hashx86.Pak.Archive
import Hashx86.Pak.Layout
import Hashx86.Pmm.Live
import Hashx86.Pmm.Ranges
import Hashx86.Processes.Boot
import Hashx86.Processes.Defs
import Hashx86.Processes.Run
import Hashx86.Sched.Calls
import Hashx86.Sched.Clone
import Hashx86.Sched.Creation
import Hashx86.Sched.FreshSlot
import Hashx86.Sched.Kept
import Hashx86.Sched.Nanosleep
import Hashx86.Sched.Queues
import Hashx86.Sched.Recycle
import Hashx86.Sched.Slots
import Hashx86.Sched.Spaces
import Hashx86.Sched.Stacked
import Hashx86.Sched.Stays
import Hashx86.Sched.Teardown
import Hashx86.Settings.Load
import Hashx86.Settings.Lookup
import Hashx86.Settings.Merge
import Hashx86.Settings.Tree
import Hashx86.Symbols.Load
import Hashx86.Symbols.Lookup
import Hashx86.Syscalls.BrkFrames
import Hashx86.Syscalls.CopyUser
import Hashx86.Syscalls.Execve
import Hashx86.Syscalls.Getdents
import Hashx86.Syscalls.Room
import Hashx86.Terminal.Input
import Hashx86.Terminal.Ls
import Hashx86.Terminal.Path
import Hashx86.Terminal.Scroll
import Hashx86.Tlsf.Alloc
import Hashx86.Tlsf.Cells
import Hashx86.Tlsf.Client
import Hashx86.Tlsf.Defs
import Hashx86.Tlsf.Index
import Hashx86.Tlsf.Kernel
import Hashx86.Tlsf.Mapping
import Hashx86.Tlsf.Pool
import Hashx86.Tlsf.Steps
import Hashx86.User.Alloc
import Hashx86.User.Kernel
import Hashx86.User.Program
import Hashx86.User.Runs
import Hashx86.User.Sound
import Hashx86.Utils.LinkedList
import Hashx86.Utils.Lists

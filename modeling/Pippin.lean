import Pippin.Broker.Bridge
import Pippin.Broker.Clients
import Pippin.Broker.GuestWindows
import Pippin.Broker.Handlers
import Pippin.Broker.Isolation
import Pippin.Broker.Pairing
import Pippin.Client.Buttons
import Pippin.Client.Effects
import Pippin.Client.Events
import Pippin.Client.Focus
import Pippin.Client.Hidden
import Pippin.Client.Library
import Pippin.Client.Paint
import Pippin.Client.Protocol
import Pippin.Client.Representation
import Pippin.Client.Shown
import Pippin.Client.Steps
import Pippin.Client.SurfaceCodec
import Pippin.Client.WindowServer
import Pippin.Host.Lines
import Pippin.Host.Link
import Pippin.Host.Session
import Pippin.Host.Surfaces
import Pippin.Kernel.Actions
import Pippin.Kernel.BootMap
import Pippin.Kernel.BootTables
import Pippin.Kernel.Capture
import Pippin.Kernel.Elf
import Pippin.Kernel.ElfChecks
import Pippin.Kernel.ElfHeaders
import Pippin.Kernel.Fairness
import Pippin.Kernel.Fat32
import Pippin.Kernel.Fat32Arithmetic
import Pippin.Kernel.Fat32File
import Pippin.Kernel.Fat32Safety
import Pippin.Kernel.FrameInvariant
import Pippin.Kernel.FrameSearch
import Pippin.Kernel.Frames
import Pippin.Kernel.Heap
import Pippin.Kernel.HeapFit
import Pippin.Kernel.HeapList
import Pippin.Kernel.HeapPartition
import Pippin.Kernel.HeapReuse
import Pippin.Kernel.InitialTables
import Pippin.Kernel.InputLoop
import Pippin.Kernel.Ipc
import Pippin.Kernel.Klibc
import Pippin.Kernel.Lifecycle
import Pippin.Kernel.Loader
import Pippin.Kernel.LoaderGuards
import Pippin.Kernel.LoaderImage
import Pippin.Kernel.MapEntries
import Pippin.Kernel.MemoryImage
import Pippin.Kernel.NoFaults
import Pippin.Kernel.Paging
import Pippin.Kernel.PagingGrowth
import Pippin.Kernel.PagingMmio
import Pippin.Kernel.PagingUser
import Pippin.Kernel.Ps2
import Pippin.Kernel.Scheduler
import Pippin.Kernel.SchedulerInvariant
import Pippin.Kernel.Shell
import Pippin.Kernel.ShellRuns
import Pippin.Kernel.Syscall
import Pippin.Kernel.Teardown
import Pippin.Kernel.TextConsole
import Pippin.Kernel.UserRange
import Pippin.Kernel.Zones
import Pippin.Lib.Around
import Pippin.Lib.Bytes
import Pippin.Lib.Checked
import Pippin.Lib.Device
import Pippin.Lib.Keyed
import Pippin.Lib.Lines
import Pippin.Lib.LockStep
import Pippin.Lib.Numbers
import Pippin.Lib.PageTable
import Pippin.Lib.PageTableEdit
import Pippin.Lib.PageTableWindow
import Pippin.Lib.Raster
import Pippin.Lib.RingBuffer
import Pippin.Lib.Spans
import Pippin.Lib.SplitBuffer
import Pippin.Lib.Spread
import Pippin.Lib.Terminal
import Pippin.Lib.Text
import Pippin.Lib.Words
import Pippin.Lib.Words32
import Pippin.Native.Canvas
import Pippin.Native.Caret
import Pippin.Native.CaretRuns
import Pippin.Native.CaretSlice
import Pippin.Native.Clicks
import Pippin.Native.Clipping
import Pippin.Native.Command
import Pippin.Native.Compositor
import Pippin.Native.Display
import Pippin.Native.Drawing
import Pippin.Native.Focus
import Pippin.Native.FocusScroll
import Pippin.Native.Frames
import Pippin.Native.HitTest
import Pippin.Native.HostRows
import Pippin.Native.Input
import Pippin.Native.Maximize
import Pippin.Native.OnScreen
import Pippin.Native.Overflow
import Pippin.Native.Painting
import Pippin.Native.PointerStream
import Pippin.Native.Returns
import Pippin.Native.Scroll
import Pippin.Native.SearchReflow
import Pippin.Native.ShapeRoom
import Pippin.Native.ShellRows
import Pippin.Native.Sizes
import Pippin.Native.SurfaceRoom
import Pippin.Native.Surfaces
import Pippin.Native.TabCycle
import Pippin.Native.Table
import Pippin.Native.TextFields
import Pippin.Native.TextRuns
import Pippin.Native.WindowInvariant
import Pippin.Ui.Containment
import Pippin.Ui.Control
import Pippin.Ui.Distribution
import Pippin.Ui.Flatten
import Pippin.Ui.Flow
import Pippin.Ui.Geometry
import Pippin.Ui.Import

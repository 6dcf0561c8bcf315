import SystemOS.Lib.Transition
import SystemOS.Lib.ByteMemory
import SystemOS.Lib.Extent
import SystemOS.Kernel.MemoryManager
import SystemOS.Kernel.HeapLayout
import SystemOS.Kernel.HeapRuns
import SystemOS.Kernel.HeapOrder
import SystemOS.Kernel.HeapReuse
import SystemOS.Kernel.PhysicalMemory
import SystemOS.Lib.RoundRobin
import SystemOS.Kernel.Multitasking
import SystemOS.Kernel.ScheduleCall
import SystemOS.Kernel.SchedulerRuns
import SystemOS.Kernel.TaskTable
import SystemOS.Lib.WaitGraph
import SystemOS.Lib.Words
import SystemOS.Kernel.WaitFor
import SystemOS.Kernel.GdtRuns
import SystemOS.Kernel.Contexts
import SystemOS.Kernel.ForkCall
import SystemOS.Kernel.ForkStack
import SystemOS.Kernel.ForkFrame
import SystemOS.Kernel.FreshImage
import SystemOS.Kernel.HandlerMemory
import SystemOS.Kernel.TaskHeap
import SystemOS.Kernel.Gdt
import SystemOS.Kernel.Console
import SystemOS.Lib.WordStack
import SystemOS.Kernel.InterruptStubs
import SystemOS.Lib.RegisterFile
import SystemOS.Kernel.InterruptTable
import SystemOS.Kernel.InterruptController
import SystemOS.Lib.Terminal
import SystemOS.Kernel.Printf
import SystemOS.Kernel.ScreenRuns
import SystemOS.Kernel.PrintfInt
import SystemOS.Kernel.UserPrograms
import SystemOS.Drivers.Ata
import SystemOS.Drivers.Addressing
import SystemOS.Drivers.SectorTransfer
import SystemOS.Lib.Overlay
import SystemOS.Drivers.Am79c973
import SystemOS.Drivers.SendRing
import SystemOS.Lib.HandoverRing
import SystemOS.Drivers.ReceiveRing
import SystemOS.Drivers.Reception
import SystemOS.Lib.Frames
import SystemOS.Drivers.Mouse
import SystemOS.Kernel.MouseConsole
import SystemOS.Gui.Widgets
import SystemOS.Gui.HitTest
import SystemOS.Gui.Dragging
import SystemOS.Gui.Focus
import SystemOS.Lib.Painting
import SystemOS.Drivers.Vga
import SystemOS.Drivers.VgaMode
import SystemOS.Lib.BoundedRing
import SystemOS.Lib.Strtok
import SystemOS.Lib.LittleEndian
import SystemOS.Interprocess.Fifos
import SystemOS.Interprocess.Results
import SystemOS.Grades.Shell
import SystemOS.Grades.Tokens
import SystemOS.Grades.Readers
import SystemOS.Grades.Pages
import SystemOS.Lib.ExchangeSort
import SystemOS.Grades.Sorting
import SystemOS.Grades.RoundTrip
import SystemOS.Parking.CarPark
import SystemOS.Parking.Conservation
import SystemOS.Parking.Simulation
import SystemOS.DirCopy.Copier
import SystemOS.DirCopy.RingRuns
import SystemOS.DirCopy.Progress
import SystemOS.DirCopy.Journal
import SystemOS.DirCopy.RingBounds
import SystemOS.DirCopy.CopyLoop
import SystemOS.DirCopy.TreeWalk
import SystemOS.PideShop.Server
import SystemOS.PideShop.WakeUps
import SystemOS.PideShop.Orders
import SystemOS.PideShop.Completion
import SystemOS.PideShop.OrderParsing
import SystemOS.Lib.Lines
import SystemOS.Lib.Pieces
import SystemOS.Lib.TextLines
import SystemOS.Lib.Serial
import SystemOS.FileServer.FileRequests
import SystemOS.FileServer.Serializability
import SystemOS.Lib.Strings
import SystemOS.Lib.Utf8
import SystemOS.Lib.Decimal
import SystemOS.Lib.Scanf
import SystemOS.Lib.FileTree
import SystemOS.Lib.Buffers
import SystemOS.FileServer.Handler
import SystemOS.FileServer.Responses
import SystemOS.FileServer.Connections
import SystemOS.FileServer.Shutdown
import SystemOS.FileServer.Editing
import SystemOS.FileServer.PutGet
import SystemOS.FileServer.Appending
import SystemOS.FileServer.Transfers
import SystemOS.FileServer.Commands
import SystemOS.FileServer.Capacity
import SystemOS.Fat12.FileSystem
import SystemOS.Fat12.Tables
import SystemOS.Fat12.Isolation
import SystemOS.Fat12.Removal
import SystemOS.Fat12.Blocks
import SystemOS.Fat12.Bounds
import SystemOS.Fat12.Names
import SystemOS.Fat12.Space
import SystemOS.Fat12.Creation
import SystemOS.Fat12.Lookup
import SystemOS.Fat12.Ascent
import SystemOS.Fat12.Naming
import SystemOS.Fat12.Times
import SystemOS.Fat12.ImageFile
import SystemOS.Fat12.Programs
import SystemOS.Fat12.Sessions

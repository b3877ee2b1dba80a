import OpenFerain.Ia32.Memory
import OpenFerain.Ia32.Access
import OpenFerain.Ia32.Paging
import OpenFerain.Ia32.Segment
import OpenFerain.Ia32.Record
import OpenFerain.Ia32.Encoding
import OpenFerain.Support.Pool
import OpenFerain.Support.Terminal
import OpenFerain.Support.Numeral
import OpenFerain.Kernel.Layout
import OpenFerain.Kernel.Bitmap
import OpenFerain.Kernel.Allocation
import OpenFerain.Kernel.PageTables
import OpenFerain.Kernel.BootTranslation
import OpenFerain.Kernel.Descriptors
import OpenFerain.Kernel.DescriptorTables
import OpenFerain.Kernel.CreatTask
import OpenFerain.Kernel.TaskPages
import OpenFerain.Kernel.TaskTables
import OpenFerain.Kernel.TaskIsolation
import OpenFerain.Kernel.AddressSpace
import OpenFerain.Kernel.PagedCreation
import OpenFerain.Console.Refinement
import OpenFerain.Console.VideoService
import OpenFerain.Console.ScrollBound
import OpenFerain.Console.DecDigit
import OpenFerain.Support.Scan
import OpenFerain.Support.ArrayLoop
import OpenFerain.Support.Sha256
import OpenFerain.Support.Calls
import OpenFerain.Device.Pci
import OpenFerain.Device.Enumeration
import OpenFerain.Device.ClassTables
import OpenFerain.Device.Enumerators
import OpenFerain.Device.Bars
import OpenFerain.Application.Cmd
import OpenFerain.Application.LineEditor
import OpenFerain.Application.LineRefinement
import OpenFerain.Application.CursorCount
import OpenFerain.Application.Dispatch
import OpenFerain.Application.Reads
import OpenFerain.Uefi.Loader
import OpenFerain.Uefi.Cleanup
import OpenFerain.Hash.Sha2
import OpenFerain.Hash.Rounds
import OpenFerain.Hash.Digest
import OpenFerain.Interrupt.Stubs
import OpenFerain.Interrupt.DivideError
import OpenFerain.Interrupt.SkipDivision
import OpenFerain.Interrupt.Gates
import OpenFerain.Interrupt.Exceptions
import OpenFerain.Interrupt.Keyboard
import OpenFerain.Ia32.StringOps
import OpenFerain.Console.Frame
import OpenFerain.Init.Setup
import OpenFerain.Init.Tables
import OpenFerain.Init.BootLog
import OpenFerain.Application.Repl
import OpenFerain.Uefi.BootOrder
import OpenFerain.Device.Ports
import OpenFerain.Init.Main
import OpenFerain.Asm16T32.Keyboard
import OpenFerain.Application.Session
import OpenFerain.Ia32.Words
import OpenFerain.Asm16T32.Tables
import OpenFerain.Asm16T32.Tasks
import OpenFerain.Support.TextScreen
import OpenFerain.Asm16T32.Video
import OpenFerain.Asm16T32.Clock
import OpenFerain.Application.Echo

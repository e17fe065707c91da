import Orion68.Lib.Runs
import Orion68.Lib.LinkedLists
import Orion68.Kernel.Scheduler
import Orion68.Kernel.ReadyRing
import Orion68.Kernel.SchedulerRuns
import Orion68.Kernel.Fairness
import Orion68.Kernel.MutexRuns
import Orion68.Kernel.MutexOnScheduler
import Orion68.Kernel.Statements
import Orion68.Kernel.Preemption
import Orion68.Kernel.TaskStack
import Orion68.Kernel.TaskArgs
import Orion68.Lib.Ownership
import Orion68.Pico.Crc32
import Orion68.Pico.Server
import Orion68.Pico.BlockOwners
import Orion68.Pico.Bounds
import Orion68.Pico.Reassembly
import Orion68.Pico.BlockSizes
import Orion68.Pico.Bus
import Orion68.Pico.BusRuns
import Orion68.Pico.BusReads
import Orion68.Lib.Files
import Orion68.FatFs.Volume
import Orion68.Bios.PicoW
import Orion68.Bios.SectorRead
import Orion68.Bios.Download
import Orion68.Bios.Save2
import Orion68.Bios.Interrupts
import Orion68.Lib.Rings
import Orion68.Bios.RingBuffer
import Orion68.Shell.Vfs
import Orion68.Shell.OpenFailure
import Orion68.Shell.FatDescriptor
import Orion68.Shell.ShadowPosition
import Orion68.Shell.ReadOnly
import Orion68.Shell.ProcFiles
import Orion68.Libc.Strings
import Orion68.Shell.ExecuteLine
import Orion68.Shell.Descriptors
import Orion68.Shell.Truncation
import Orion68.Shell.Commands
import Orion68.Shell.Startup
import Orion68.Lib.MaximalRuns
import Orion68.Shell.BootScript
import Orion68.Shell.RedirectionOrder
import Orion68.Shell.ErrorPaths
import Orion68.Shell.Dispatch
import Orion68.Lib.CStrings
import Orion68.Shell.LineBuffers
import Orion68.Shell.ArgumentVector
import Orion68.Shell.LineSafety
import Orion68.Shell.Redirections
import Orion68.Lib.Memory
import Orion68.Loader.LoaderPic
import Orion68.Loader.Patches
import Orion68.Loader.Bounds
import Orion68.Loader.Heap
import Orion68.Loader.Relocation
import Orion68.Loader.Reading
import Orion68.Loader.Tables
import Orion68.Loader.Image
import Orion68.Loader.DebugReads
import Orion68.Loader.ElfLoaders
import Orion68.Loader.ElfAgreement
import Orion68.Loader.ElfStart
import Orion68.Loader.FileParts
import Orion68.Loader.Standalone
import Orion68.Receiver.W5100
import Orion68.Receiver.Chunks
import Orion68.Receiver.EarlyClose
import Orion68.Receiver.Transfer
import Orion68.Vga.Registers
import Orion68.Vga.Trap
import Orion68.Lib.Loops
import Orion68.Vga.Font
import Orion68.Vga.Primitives
import Orion68.Vga.Terminal
import Orion68.Vga.Accesses
import Orion68.Vga.Cursor
import Orion68.Vga.Bounds
import Orion68.Lib.TextScreen
import Orion68.Vga.Pixels
import Orion68.Vga.Refinement
import Orion68.Vga.Rendering
import Orion68.Lib.Painting
import Orion68.Lib.Lines
import Orion68.Vga.Painting
import Orion68.Vga.Line
import Orion68.Vga.HLine
import Orion68.Vga.Termination
import Orion68.Vga.Circle
import Orion68.Lib.Copies
import Orion68.Lib.Stacks
import Orion68.Vga.DmaMemcpy
import Orion68.Lib.Stretches
import Orion68.Psu.Controller
import Orion68.Psu.Steps
import Orion68.Psu.Pins
import Orion68.Psu.Off
import Orion68.Psu.Requests
import Orion68.Psu.Blocks
import Orion68.Psu.Holds
import Orion68.Psu.Qualification
import Orion68.Psu.Debounce
import Orion68.Sender.Crc32
import Orion68.Ide.Ata
import Orion68.Ide.Sectors
import Orion68.Ide.BlockStore
import Orion68.Ide.Errors
import Orion68.Ide.InterruptMask
import Orion68.Bios.DecodeCmd
import Orion68.Bios.WriteMem
import Orion68.Bios.ReceberArquivo
import Orion68.Burner.OrionBur
import Orion68.Burner.Reset
import Orion68.Rtc.I2cbb
import Orion68.Rtc.Edges
import Orion68.Rtc.Slave
import Orion68.Rtc.Chips
import Orion68.Rtc.Clock
import Orion68.Rtc.Eeprom
import Orion68.Lib.Interactions
import Orion68.Dhcp.Client
import Orion68.Dhcp.Options
import Orion68.Dhcp.StaleBytes
import Orion68.Dhcp.Transaction
import Orion68.Lib.TwoWire
import Orion68.Lib.TypeLength
import Orion68.Dhcp.Parser
import Orion68.Dhcp.RoundTrip
import Orion68.Dhcp.UdpPackets
import Orion68.Lib.Transducers
import Orion68.Kbd.KbdUsb
import Orion68.Kbd.Frames
import Orion68.Kbd.Resync
import Orion68.Kbd.Modifiers
import Orion68.Kbd.CapsLock
import Orion68.Kbd.Bounds
import Orion68.Lib.HeldKeys
import Orion68.Kbd.Ps2
import Orion68.Kbd.Ps2Keys
import Orion68.Lib.Teletype
import Orion68.Shell.ShellHistory
import Orion68.Shell.Browsing
import Orion68.Shell.Recall
import Orion68.Libc.Printf
import Orion68.Libc.Sprintf
import Orion68.Libc.Agreement
import Orion68.Libc.Formats
import Orion68.Lib.M68000
import Orion68.Lib.LongDivision
import Orion68.Libc.Mulsi3
import Orion68.Libc.Udivsi3
import Orion68.Kernel.Udivdi3
import Orion68.Kernel.Muldi3
import Orion68.Lib.Numerals
import Orion68.Libc.Conversions
import Orion68.Lib.Buffers
import Orion68.Libc.Itoa
import Orion68.Libc.Strncpy
import Orion68.Lib.Occurrences
import Orion68.Libc.Strstr
import Orion68.Libc.Strtok
import Orion68.Libc.PrintfAccesses
import Orion68.Libc.Memmove
import Orion68.Vga.Sqrt
import Orion68.Kernel.Divdi3
import Orion68.Kernel.Strtol
import Orion68.Kernel.InttoStr
import Orion68.Lib.FirstFit
import Orion68.Lib.Chains
import Orion68.Libc.MallocRuns
import Orion68.Lib.SortedMaps
import Orion68.Basic.Files

import MinimalistOS.Infra.Run
import MinimalistOS.Infra.Word
import MinimalistOS.Infra.Memory
import MinimalistOS.Infra.Paging
import MinimalistOS.Infra.X86
import MinimalistOS.Infra.Interrupt
import MinimalistOS.Infra.Agree
import MinimalistOS.Infra.Pic
import MinimalistOS.Infra.Crtc
import MinimalistOS.Infra.LineEnds
import MinimalistOS.Infra.Bitmap
import MinimalistOS.Infra.Slots
import MinimalistOS.Infra.Mailbox
import MinimalistOS.Infra.Ring
import MinimalistOS.Infra.Linked
import MinimalistOS.Infra.Cyclic
import MinimalistOS.Infra.Turns
import MinimalistOS.Infra.Hull
import MinimalistOS.Infra.Stopwatch
import MinimalistOS.Infra.Upsert
import MinimalistOS.Infra.Buffer
import MinimalistOS.Infra.Numeral
import MinimalistOS.Infra.ThreeWay
import MinimalistOS.Infra.Scan
import MinimalistOS.Infra.Framing
import MinimalistOS.Kernel.String
import MinimalistOS.Kernel.StringMemory
import MinimalistOS.Kernel.Itoa
import MinimalistOS.Kernel.Heap
import MinimalistOS.Kernel.Page
import MinimalistOS.Kernel.Paging
import MinimalistOS.Kernel.Context
import MinimalistOS.Kernel.Process
import MinimalistOS.Kernel.ProcessList
import MinimalistOS.Kernel.Timer
import MinimalistOS.Kernel.ShellScreen
import MinimalistOS.Kernel.Idt
import MinimalistOS.Kernel.Interrupts
import MinimalistOS.Kernel.Irq
import MinimalistOS.Kernel.Ipc
import MinimalistOS.Kernel.Security
import MinimalistOS.Kernel.Ramfs
import MinimalistOS.Kernel.Vfs
import MinimalistOS.Kernel.Filesystem
import MinimalistOS.Kernel.Loader
import MinimalistOS.Kernel.Network
import MinimalistOS.Kernel.Keyboard
import MinimalistOS.Kernel.Vga
import MinimalistOS.Kernel.VgaCursor
import MinimalistOS.Kernel.Mouse
import MinimalistOS.Kernel.Power
import MinimalistOS.Kernel.CharDevice
import MinimalistOS.Kernel.Monitor
import MinimalistOS.Kernel.Shell
import MinimalistOS.Kernel.KeyboardShell
import MinimalistOS.Kernel.Device
import MinimalistOS.Kernel.DeviceIo
import MinimalistOS.Kernel.Log
import MinimalistOS.Kernel.LogConsole
import MinimalistOS.Kernel.Serial
import MinimalistOS.Kernel.Syscall
import MinimalistOS.Kernel.BlockDevice
import MinimalistOS.Kernel.Usermode
import MinimalistOS.Kernel.Pci
import MinimalistOS.Spec.PageSet
import MinimalistOS.Spec.Lines
import MinimalistOS.Spec.DeviceTable
import MinimalistOS.Spec.Mail
import MinimalistOS.Spec.ProcessReport
import MinimalistOS.Spec.Files
import MinimalistOS.Spec.Terminal
import MinimalistOS.Spec.LogView
import MinimalistOS.Spec.Typing
import MinimalistOS.Properties.StringOrder
import MinimalistOS.Properties.StringMemory
import MinimalistOS.Properties.Itoa
import MinimalistOS.Properties.Log
import MinimalistOS.Properties.LogNumbers
import MinimalistOS.Properties.SerialLine
import MinimalistOS.Properties.LogArguments
import MinimalistOS.Properties.Heap
import MinimalistOS.Properties.HeapAlignment
import MinimalistOS.Properties.Page
import MinimalistOS.Properties.PageReserved
import MinimalistOS.Properties.Paging
import MinimalistOS.Properties.Usermode
import MinimalistOS.Properties.Context
import MinimalistOS.Properties.ContextSwitch
import MinimalistOS.Properties.Process
import MinimalistOS.Properties.ProcessList
import MinimalistOS.Properties.Fairness
import MinimalistOS.Properties.Waiting
import MinimalistOS.Properties.CpuTime
import MinimalistOS.Properties.Recycle
import MinimalistOS.Properties.Dispatch
import MinimalistOS.Properties.Idt
import MinimalistOS.Properties.InterruptReturn
import MinimalistOS.Properties.InterruptTransparency
import MinimalistOS.Properties.Irq
import MinimalistOS.Properties.Ipc
import MinimalistOS.Properties.IpcSecrecy
import MinimalistOS.Properties.Security
import MinimalistOS.Properties.Login
import MinimalistOS.Properties.AccessControl
import MinimalistOS.Properties.UserDeletion
import MinimalistOS.Properties.RamfsInit
import MinimalistOS.Properties.Ramfs
import MinimalistOS.Properties.RamfsBounds
import MinimalistOS.Properties.RamfsNames
import MinimalistOS.Properties.Filesystem
import MinimalistOS.Properties.FilesystemBlocks
import MinimalistOS.Properties.FilesystemRuns
import MinimalistOS.Properties.FilesystemDescriptors
import MinimalistOS.Properties.FilesystemTransfers
import MinimalistOS.Properties.FilesystemReserved
import MinimalistOS.Properties.Loader
import MinimalistOS.Properties.LoaderImage
import MinimalistOS.Properties.LoaderReuse
import MinimalistOS.Properties.LoaderFailure
import MinimalistOS.Properties.LoaderHull
import MinimalistOS.Properties.Network
import MinimalistOS.Properties.Keyboard
import MinimalistOS.Properties.KeyboardShift
import MinimalistOS.Properties.Vga
import MinimalistOS.Properties.VgaBounds
import MinimalistOS.Properties.VgaBackspace
import MinimalistOS.Properties.VgaRows
import MinimalistOS.Properties.VgaCursor
import MinimalistOS.Properties.Mouse
import MinimalistOS.Properties.Syscall
import MinimalistOS.Properties.Power
import MinimalistOS.Properties.PowerBattery
import MinimalistOS.Properties.CharDevice
import MinimalistOS.Properties.Monitor
import MinimalistOS.Properties.MonitorTimers
import MinimalistOS.Properties.Shell
import MinimalistOS.Properties.Typing
import MinimalistOS.Properties.ShellScreen
import MinimalistOS.Properties.LogConsole
import MinimalistOS.Properties.Device
import MinimalistOS.Properties.DeviceNames
import MinimalistOS.Properties.DeviceTable
import MinimalistOS.Properties.BlockDevice
import MinimalistOS.Properties.Pci
import MinimalistOS.Properties.Vfs
import MinimalistOS.Properties.VfsErrors
import MinimalistOS.Kernel.KeyboardIntl
import MinimalistOS.Properties.KeyboardLights
import MinimalistOS.Properties.Layouts
import MinimalistOS.Properties.KeyboardDrivers
import MinimalistOS.Properties.TimerWait

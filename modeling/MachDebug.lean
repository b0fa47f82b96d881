import MachDebug.Program.Basic
import MachDebug.Program.Interference
import MachDebug.Program.Partial
import MachDebug.Program.Loop
import MachDebug.Kernel.State
import MachDebug.Debugger.State
import MachDebug.Debugger.Operations
import MachDebug.Debugger.MachProcess
import MachDebug.Debugger.Footprint
import MachDebug.Debugger.Run
import MachDebug.Session.AttachFailure
import MachDebug.Session.ExceptionPorts
import MachDebug.Session.Serial
import MachDebug.Session.SuspendBalance
import MachDebug.Session.Exec
import MachDebug.Session.Reattach
import MachDebug.Session.Release
import MachDebug.Session.Rejected
import MachDebug.Session.StartFailure
import MachDebug.Session.Relay
import MachDebug.Debugger.SingleStep
import MachDebug.Memory.Write
import MachDebug.Memory.Regions
import MachDebug.Memory.Protections
import MachDebug.Memory.Pages
import MachDebug.Memory.Read
import MachDebug.Memory.WritePieces
import MachDebug.Memory.WriteExact
import MachDebug.Memory.Controller
import MachDebug.Memory.Iterations
import MachDebug.Memory.Reach
import MachDebug.Memory.Progress
import MachDebug.Memory.Termination
import MachDebug.Memory.RegionScan
import MachDebug.Memory.FlatMemory
import MachDebug.Memory.ReadFailures
import MachDebug.Memory.Patched
import MachDebug.Main.Drain
import MachDebug.Main.Patch
import MachDebug.Threads.Stopped
import MachDebug.Threads.Replies
import MachDebug.Loop.Tape
import MachDebug.Loop.Tracking
import MachDebug.Loop.Protocol

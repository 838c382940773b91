import Xeros.Analysis.Membership
import Xeros.Analysis.Sleeping
import Xeros.Analysis.UserPointers
import Xeros.Analysis.Interrupts
import Xeros.Analysis.Rendezvous
import Xeros.Analysis.ReadBounds
import Xeros.Analysis.RingCharacters
import Xeros.Analysis.FirstCome
import Xeros.Analysis.Stubs
import Xeros.Analysis.MessageIntegrity
import Xeros.Analysis.EndOfFile
import Xeros.Analysis.ProcessSnapshot
import Xeros.Analysis.Modifiers
import Xeros.Analysis.UserStrings
import Xeros.Analysis.CommandLine
import Xeros.Analysis.ConsoleText
import Xeros.Analysis.ShellBuffers
import Xeros.Analysis.FreeHeaders
import Xeros.Analysis.KeyboardTasks
import Xeros.Analysis.BlockedCalls
import Xeros.Analysis.Scheduling
import Xeros.Analysis.SavedRegisters
import Xeros.Analysis.Pids
import Xeros.Analysis.CpuTime
import Xeros.Analysis.SignalDelivery
import Xeros.Analysis.SignalContext
import Xeros.Analysis.HeapAccounts
import Xeros.Analysis.Progress
import Xeros.Analysis.InheritedHandlers

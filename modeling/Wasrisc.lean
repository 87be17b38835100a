import Wasrisc.MemsetShortcut
import Wasrisc.HeapBlocks
import Wasrisc.LinearMemory
import Wasrisc.WasiDisclosure
import Wasrisc.WasiResults
import Wasrisc.ProgramBreak
import Wasrisc.HeapPlacement
import Wasrisc.OutputWindow
import Wasrisc.PrintkEquivalence
import Wasrisc.WitnessReader
import Wasrisc.ExitStatus
import Wasrisc.Descriptors
import Wasrisc.ConsoleWrites
import Wasrisc.CallocContract
import Wasrisc.SbrkBlocks
import Wasrisc.PseudoClock
import Wasrisc.InputReaders
import Wasrisc.InputGlobals
import Wasrisc.InputPlatforms
import Wasrisc.WatPatch
import Wasrisc.StringRoutines
import Wasrisc.PatchCompletion
import Wasrisc.ModuleEmbedding
import Wasrisc.MemopsCalls
import Wasrisc.Startup
import Wasrisc.SerializedForm
import Wasrisc.UartConsole
import Wasrisc.RiscvQemuUart
import Wasrisc.GuestInput
import Wasrisc.GuestIsolation

import SoiStud.FileSystem.Contents
import SoiStud.FileSystem.Formatting
import SoiStud.FileSystem.Naming
import SoiStud.FileSystem.Observation
import SoiStud.FileSystem.Reachability
import SoiStud.FileSystem.Indices
import SoiStud.FileSystem.Rejection
import SoiStud.FileSystem.Sessions
import SoiStud.FileSystem.Slots
import SoiStud.FileSystem.Sums
import SoiStud.Kernel.Accounting
import SoiStud.Kernel.ClockInts
import SoiStud.Kernel.Groups
import SoiStud.Kernel.Reload
import SoiStud.Memory.Coalescing
import SoiStud.Memory.Exhaustion
import SoiStud.Memory.Fragmentation
import SoiStud.Memory.HoleMap
import SoiStud.Memory.SwapOff
import SoiStud.Memory.WorstFit
import SoiStud.Monitor.Exclusion
import SoiStud.Monitor.Progress
import SoiStud.Semaphores.Progress
import SoiStud.Semaphores.Wakeup
import SoiStud.Kernel.Rotation

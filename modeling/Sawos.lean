import Sawos.Kernel.Delivered
import Sawos.Kernel.Trades
import Sawos.Boards.IntMatrix
import Sawos.Kernel.Endings
import Sawos.Boards.Arm64Standing
import Sawos.Boards.PmpReplay
import Sawos.Kernel.Lines
import Sawos.Kernel.Timers
import Sawos.Kernel.Scheduled
import Sawos.Kernel.Blame
import Sawos.Kernel.FreeRange
import Sawos.Kernel.Queued
import Sawos.Rt.Arena
import Sawos.Boards.Clocks
import Sawos.Boards.Systimer
import Sawos.Boards.Plic
import Sawos.Boards.Gic
import Sawos.Kernel.Recycled
import Sawos.Kernel.Mapped
import Sawos.Kernel.BootSets
import Sawos.Kernel.RegionTable

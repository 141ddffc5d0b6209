import QarCore.Core.Refinement
import QarCore.Core.Cache
import QarCore.Core.Handshake
import QarCore.Core.IllegalTrap
import QarCore.Periph.Queues
import QarCore.Periph.Loopback
import QarCore.Periph.UartFraming
import QarCore.Periph.Watchdog
import QarCore.Periph.TimerCompare
import QarCore.Periph.TimerHarness
import QarCore.Periph.GpioHarness
import QarCore.Periph.AdcRegisters
import QarCore.Periph.CanStatus
import QarCore.Periph.ChipSelect
import QarCore.Periph.SpiLoopback
import QarCore.Periph.I2cRead
import QarCore.Periph.I2cWrite
import QarCore.Periph.I2cBus
import QarCore.Periph.LinSlave
import QarCore.Periph.LinHeader
import QarCore.Periph.LinDetector
import QarCore.DevKit.Elf2qarImages
import QarCore.DevKit.Labels
import QarCore.DevKit.HiLo
import QarCore.DevKit.Literals
import QarCore.DevKit.DataFile
import QarCore.DevKit.OperandText
import QarCore.DevKit.Includes
import QarCore.DevKit.Build
import QarCore.DevKit.Elf2qarStore
import QarCore.DevKit.CommandLine
import QarCore.Core.TrapReturn
import QarCore.Periph.GpioEvents
import QarCore.Periph.TimerWrites
import QarCore.Periph.FifoIrq
import QarCore.Periph.FaultSummary
import QarCore.Periph.IrqEvents
import QarCore.Periph.LinMaster
import QarCore.Periph.BreakLength
import QarCore.Core.PrefetchQueue
import QarCore.Core.CacheContents
import QarCore.DevKit.QhexLines
import QarCore.DevKit.HexImages
import QarCore.Soc.Accesses
import QarCore.Hal.Spi
import QarCore.Hal.Can
import QarCore.Hal.Adc
import QarCore.Soc.Listing
import QarCore.Programs.SumPositiveText
import QarCore.Programs.SpiLoopbackText

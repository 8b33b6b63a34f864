import SpecSw.Kernel
import SpecSw.Library.Run
import SpecSw.Library.CyclicWindow
import SpecSw.Library.RingFifo
import SpecSw.Library.SlotRing
import SpecSw.Library.Custody
import SpecSw.Library.I2cBus
import SpecSw.Library.I2cEeprom
import SpecSw.Library.RegisterLog
import SpecSw.Library.CountedLoop
import SpecSw.Library.LastWrite
import SpecSw.Library.Settle
import SpecSw.Library.LossyLink
import SpecSw.Library.Receipts
import SpecSw.Library.Decimal
import SpecSw.Library.Scanf
import SpecSw.Nic.Xmit
import SpecSw.Nic.Tstamp
import SpecSw.Nic.TxInterrupt
import SpecSw.Nic.TxSystem
import SpecSw.Nic.TxConservation
import SpecSw.Nic.TxReclaim
import SpecSw.Nic.TxOccupancy
import SpecSw.Nic.TxIds
import SpecSw.Nic.XmitInterrupt
import SpecSw.Nic.Receive
import SpecSw.Nic.PacketMemory
import SpecSw.Nic.PacketCopy
import SpecSw.Nic.PpsClock
import SpecSw.Nic.Delivery
import SpecSw.Nic.Interrupt
import SpecSw.Nic.IrqSettle
import SpecSw.Nic.TxComplete
import SpecSw.Nic.ProbeRemove
import SpecSw.Nic.PlatformDriver
import SpecSw.Dio.StopTrain
import SpecSw.Dio.TrainRace
import SpecSw.Dio.Throttle
import SpecSw.Dio.IrqLoad
import SpecSw.Dio.StampFifo
import SpecSw.UserIndices
import SpecSw.Dio.StampSteps
import SpecSw.Dio.StampWait
import SpecSw.Dio.FailedCmd
import SpecSw.Dio.Iomode
import SpecSw.Dio.PulseTime
import SpecSw.Dio.InoutChannels
import SpecSw.Vic.Invariant
import SpecSw.Vic.IrqChain
import SpecSw.Vic.IrqServed
import SpecSw.Nic.IrqPath
import SpecSw.Nic.OnWire
import SpecSw.Nic.HostPair
import SpecSw.Carrier.IrqRequest
import SpecSw.Carrier.IrqLock
import SpecSw.Carrier.GpioPins
import SpecSw.Carrier.I2cMaster
import SpecSw.Carrier.Eeprom
import SpecSw.Carrier.EepromAccess
import SpecSw.Carrier.EepromBounds
import SpecSw.Carrier.CardEeprom
import SpecSw.Carrier.PciCard
import SpecSw.Carrier.Reprogram
import SpecSw.Carrier.Loader
import SpecSw.Carrier.LoaderFifo
import SpecSw.Tools.DioIoctl
import SpecSw.Tools.DioCmdStamp
import SpecSw.Tools.DioCmdMode
import SpecSw.Tools.ReportTimes
import SpecSw.Tools.ParseTs
import SpecSw.Tools.DioCmdPulse
import SpecSw.Tools.Lm32Image
import SpecSw.Tools.Lm32Load
import SpecSw.Tools.Ruler
import SpecSw.Tools.RulerArgs
import SpecSw.Tools.Agent
import SpecSw.Tools.Replication
import SpecSw.Tools.TimeAdd
import SpecSw.Tools.StampFrame
import SpecSw.Tools.StampQueue
import SpecSw.Tools.Vuart

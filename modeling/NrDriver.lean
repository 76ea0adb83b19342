import NrDriver.LabelledRuns
import NrDriver.NumberedTable
import NrDriver.KernelModel
import NrDriver.TransferSteps
import NrDriver.ReadHalfSteps
import NrDriver.WriteHalfSteps
import NrDriver.IdleThreads
import NrDriver.TransferBounds
import NrDriver.SingleReader
import NrDriver.ConcurrentReaders
import NrDriver.WriterExclusion
import NrDriver.PayloadIntegrity
import NrDriver.OpenReset
import NrDriver.Ledger
import NrDriver.ProbeModel
import NrDriver.ProbeOutcome
import NrDriver.ResourceLedger
import NrDriver.BufferBounds
import NrDriver.DeviceWorld
import NrDriver.OpenRace
import NrDriver.RecordLifetime
import NrDriver.StalledWriters
import NrDriver.ReadGuard
import NrDriver.CountBound
import NrDriver.ReadHistory
import NrDriver.LengthReread
import NrDriver.FaultyCopies
import NrDriver.FailedTransfers
import NrDriver.Independence
import NrDriver.SequentialWriter
import NrDriver.RestartedWrites
import NrDriver.ProbeSteps
import NrDriver.Publication
import NrDriver.RetryLoop
import NrDriver.WriteReports
import NrDriver.ScanAgreement
import NrDriver.MinorLeak
import NrDriver.WireSizes
import NrDriver.FailedCalls
import NrDriver.LogRefinement
import NrDriver.Mailbox
import NrDriver.ReadProtocol
import NrDriver.ProgramSessions
import NrDriver.Potential
import NrDriver.BoundedWork
import NrDriver.EchoWrites
import NrDriver.ReadUrbDriver
import NrDriver.WakeUps
import NrDriver.Pluggable
import NrDriver.ModuleLifecycle
import NrDriver.RecordProbe
import NrDriver.ReadUrbProbe
import NrDriver.GreetingProbe
import NrDriver.GreetingReads
import NrDriver.Routing
import NrDriver.SystemRefinement
import NrDriver.SystemTransfers

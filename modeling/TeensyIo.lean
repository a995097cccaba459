import TeensyIo.StreamScanner
import TeensyIo.ShiftRegisters
import TeensyIo.LittleEndian
import TeensyIo.MachineRuns
import TeensyIo.WireCommands
import TeensyIo.WireFrame
import TeensyIo.FirmwareProtocol
import TeensyIo.HostProtocol
import TeensyIo.WireCompatibility
import TeensyIo.FramingRecovery
import TeensyIo.DecoderStreams
import TeensyIo.ChecksumAlgebra
import TeensyIo.ParserEmissions
import TeensyIo.FrameErrors
import TeensyIo.FirmwareState
import TeensyIo.FirmwareCommands
import TeensyIo.FirmwareUpdate
import TeensyIo.FirmwareRequests
import TeensyIo.FirmwareOutcomes
import TeensyIo.FirmwareDevice
import TeensyIo.FirmwareSafeState
import TeensyIo.FirmwareDacStop
import TeensyIo.FirmwareInterrupts
import TeensyIo.FirmwareWatchdog
import TeensyIo.HostClient
import TeensyIo.HostSession
import TeensyIo.HostDelivery
import TeensyIo.FirmwareResponses
import TeensyIo.DeviceLink
import TeensyIo.ResponseCorrelation
import TeensyIo.HostResources
import TeensyIo.RequestLayouts
import TeensyIo.HostOperations
import TeensyIo.ArgumentAgreement
import TeensyIo.FirmwareExchange
import TeensyIo.FirmwareRejections
import TeensyIo.FirmwareReset
import TeensyIo.ClientThreads
import TeensyIo.ResponseOrigins
import TeensyIo.ConfirmedStops
import TeensyIo.GenuineReadings
import TeensyIo.OrderedLogs
import TeensyIo.WriteOrder
import TeensyIo.CommutingWords
import TeensyIo.DecoderInput
import TeensyIo.CallbackCommands
import TeensyIo.RingBuffers
import TeensyIo.BoundedQueues
import TeensyIo.FirmwareRing
import TeensyIo.OutboundQueue
import TeensyIo.SubscriptionCalls
import TeensyIo.TelemetryPacing
import TeensyIo.EdgeCallbacks
import TeensyIo.CheckedMemory
import TeensyIo.CheckedProtocol
import TeensyIo.CheckedCommands
import TeensyIo.FirmwareBounds
import TeensyIo.CommandBounds
import TeensyIo.MemorySafety
import TeensyIo.BracketedPrograms
import TeensyIo.BatchTransparency
import TeensyIo.Odometers
import TeensyIo.CounterDeltas
import TeensyIo.RaisingPrograms
import TeensyIo.ConfigValues
import TeensyIo.ConfigSchema
import TeensyIo.ConfigureAll
import TeensyIo.ConfigurationPlans
import TeensyIo.ApplicableConfigs
import TeensyIo.ChangeEvents
import TeensyIo.PathSums
import TeensyIo.QuadratureDecoding
import TeensyIo.EncoderModes
import TeensyIo.NormalizedDac
import TeensyIo.CounterPeriods
import TeensyIo.DropOldestQueues
import TeensyIo.AsyncQueues
import TeensyIo.Handoffs
import TeensyIo.FailedFlushes
import TeensyIo.HostFrames
import TeensyIo.FailedCalls
import TeensyIo.SlidingWindows
import TeensyIo.RollingFrequency
import TeensyIo.ReverseIndexes
import TeensyIo.BridgeNames
import TeensyIo.WeighedQueues
import TeensyIo.QueueSections
import TeensyIo.PassLoops
import TeensyIo.DecoderBounds
import TeensyIo.PollBudgets
import TeensyIo.ArrivalCurves
import TeensyIo.SlotTables
import TeensyIo.SubscriptionTable
import TeensyIo.OutboundThroughput
import TeensyIo.ServedQueues
import TeensyIo.BridgePolling
import TeensyIo.TelemetryPipeline
import TeensyIo.ServedRequests
import TeensyIo.ConfiguredResources
import TeensyIo.ServedOperations
import TeensyIo.DacTransparency
import TeensyIo.SampledDeadlines
import TeensyIo.FailSafe
import TeensyIo.StopPersistence
import TeensyIo.WiredPins
import TeensyIo.LiveReadings
import TeensyIo.WaitingReads
import TeensyIo.BridgeServices
import TeensyIo.StarvedCalls
import TeensyIo.DrivenOutputs
import TeensyIo.BusTransfers

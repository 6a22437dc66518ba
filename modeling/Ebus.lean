import Ebus.Lib.Run
import Ebus.Verification.Corruption
import Ebus.Protocol.Counting
import Ebus.Core.BusHandler
import Ebus.App.Scheduler
import Ebus.App.Schedule
import Ebus.App.Reactor
import Ebus.Verification.IndexSafety
import Ebus.Verification.Verdicts
import Ebus.Verification.Views
import Ebus.Verification.Validation
import Ebus.Verification.Engagement
import Ebus.Verification.Outcome
import Ebus.Verification.Conservation
import Ebus.Verification.Sessions
import Ebus.Verification.Duplicates
import Ebus.Verification.Resync
import Ebus.Verification.Observing
import Ebus.Verification.Transmission
import Ebus.Verification.Guards
import Ebus.Verification.Answers
import Ebus.Verification.Arbitration
import Ebus.Verification.Orphans
import Ebus.Verification.Suppression
import Ebus.Verification.Silence
import Ebus.Verification.Fairness
import Ebus.Verification.Clients
import Ebus.Verification.Listening
import Ebus.Verification.Priorities
import Ebus.Verification.Correlation
import Ebus.Verification.SessionIds
import Ebus.Verification.Attempts
import Ebus.Verification.PollOrder
import Ebus.Verification.PollIds
import Ebus.Verification.Backpressure
import Ebus.Verification.Delivery
import Ebus.Verification.Targets
import Ebus.Verification.Bridging
import Ebus.Verification.Parts
import Ebus.Lib.Bytes
import Ebus.Verification.Scanners
import Ebus.Verification.Finding
import Ebus.Models.DataTypes
import Ebus.Verification.Configuration
import Ebus.Verification.Merging
import Ebus.Verification.Truncation
import Ebus.Verification.Timing
import Ebus.Verification.EchoReference
import Ebus.App.Outbound
import Ebus.Lib.Circular
import Ebus.Verification.WireForms
import Ebus.Verification.Values
import Ebus.Verification.Grammar
import Ebus.Verification.Rounding
import Ebus.Verification.Accessors
import Ebus.Verification.Emitting
import Ebus.Verification.Segmentation
import Ebus.Verification.OutboundRing
import Ebus.Lib.Words
import Ebus.Verification.EnhancedUnits
import Ebus.Lib.Slots
import Ebus.Models.Device
import Ebus.App.DeviceManager
import Ebus.Verification.DeviceTable
import Ebus.Lib.Loop
import Ebus.App.DeviceScanner
import Ebus.Verification.Scanning
import Ebus.Verification.ScannerRuns
import Ebus.Verification.Validators
import Ebus.Verification.PollTexts
import Ebus.Lib.Pairs
import Ebus.Utils.Hex
import Ebus.Verification.HexCodecs
import Ebus.Lib.Condition
import Ebus.Platform.Queue
import Ebus.Verification.Blocking
import Ebus.Platform.VirtualLine
import Ebus.Verification.Broadcast
import Ebus.Platform.SynGenerator
import Ebus.Verification.Generating
import Ebus.Lib.Least
import Ebus.Platform.Participants
import Ebus.Verification.Contending
import Ebus.Lib.Threads
import Ebus.Utils.TimingStats
import Ebus.Verification.Sampling
import Ebus.Core.BusMonitor
import Ebus.Verification.Telemetry
import Ebus.Verification.ErrorTable
import Ebus.Verification.DeviceCounts
import Ebus.Verification.PollRate
import Ebus.App.ReactorThread
import Ebus.Verification.Stopping
import Ebus.Utils.CircularBuffer
import Ebus.Verification.Histories
import Ebus.Platform.BusSimulator
import Ebus.Verification.Responding
import Ebus.Platform.SynTimer
import Ebus.Verification.Sensing
import Ebus.Platform.LineReader
import Ebus.Verification.Handing

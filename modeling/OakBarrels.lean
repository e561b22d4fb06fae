import OakBarrels.Lib.Octets
import OakBarrels.Lib.Utf8
import OakBarrels.Lib.Binary64
import OakBarrels.Lib.Decimal
import OakBarrels.Lib.Conversion
import OakBarrels.Lib.Rounding
import OakBarrels.Lib.Logged
import OakBarrels.Json.Value
import OakBarrels.Json.Parser
import OakBarrels.Json.LoggedParser
import OakBarrels.Json.Grammar
import OakBarrels.Json.TokenProofs
import OakBarrels.Json.ParserProofs
import OakBarrels.Json.Dump
import OakBarrels.Json.RoundTrip
import OakBarrels.Json.Equality
import OakBarrels.Json.Encoding
import OakBarrels.Json.Unambiguous
import OakBarrels.Json.Members
import OakBarrels.Lib.Runs
import OakBarrels.Lib.Loads
import OakBarrels.Lib.Since
import OakBarrels.Lib.Agree
import OakBarrels.Lib.Sorted
import OakBarrels.Lib.Pointwise
import OakBarrels.Lib.Owners
import OakBarrels.Lib.Association
import OakBarrels.Protocol.Frame
import OakBarrels.Protocol.Splits
import OakBarrels.Client.Frame
import OakBarrels.Client.FrameProofs
import OakBarrels.Client.Violations
import OakBarrels.Bulk.RingBuffer
import OakBarrels.Bulk.RingBufferProofs
import OakBarrels.Bulk.BulkChannel
import OakBarrels.Bulk.BulkChannelProofs
import OakBarrels.Bulk.DeadChannel
import OakBarrels.Bulk.Stopping
import OakBarrels.Backend
import OakBarrels.Discovery.ModuleFormat
import OakBarrels.Discovery.HeaderReads
import OakBarrels.Discovery.Windows
import OakBarrels.Discovery.Scanner
import OakBarrels.Discovery.ScannerProofs
import OakBarrels.Discovery.DiscoveryBackend
import OakBarrels.Probe.Profile
import OakBarrels.Probe.ProfileProofs
import OakBarrels.Probe.Prober
import OakBarrels.Probe.ProbingBackend
import OakBarrels.Probe.Dispatch
import OakBarrels.Probe.Binding
import OakBarrels.Probe.Ownership
import OakBarrels.Session
import OakBarrels.Payloads
import OakBarrels.SessionLaws
import OakBarrels.Client.Pairing
import OakBarrels.Client.Overlap
import OakBarrels.Client.Failures
import OakBarrels.Revisions
import OakBarrels.Client.Negotiation
import OakBarrels.Transport
import OakBarrels.WriteLoops
import OakBarrels.Station
import OakBarrels.StationLaws
import OakBarrels.Replies
import OakBarrels.Diagnostics
import OakBarrels.Reports
import OakBarrels.Targets
import OakBarrels.Conversions
import OakBarrels.Switches
import OakBarrels.Simulation
import OakBarrels.Metered
import OakBarrels.Transcripts
import OakBarrels.Probe.View
import OakBarrels.Probe.Caching
import OakBarrels.Probe.Disclosure
import OakBarrels.Probe.Answers
import OakBarrels.Probe.Offers
import OakBarrels.Probe.Refusals
import OakBarrels.Probe.Names
import OakBarrels.Probe.Live
import OakBarrels.Probe.Acceptance
import OakBarrels.Json.Safety
import OakBarrels.Client.Api
import OakBarrels.Service
import OakBarrels.Json.Length
import OakBarrels.Lib.Maximal
import OakBarrels.Link.Served
import OakBarrels.Link.Reading
import OakBarrels.Link.Presentable
import OakBarrels.Link.System
import OakBarrels.Link.Transparent
import OakBarrels.Link.Progress
import OakBarrels.Lib.Dialogue
import OakBarrels.Process.System
import OakBarrels.Process.Transports
import OakBarrels.Process.Main
import OakBarrels.Process.MainProofs
import OakBarrels.Process.Ending
import OakBarrels.Json.Canonical
import OakBarrels.Probe.Learned
import OakBarrels.Lib.Nearing
import OakBarrels.Bulk.Progress
import OakBarrels.Bulk.Leaving
import OakBarrels.Buffers
import OakBarrels.Client.NamedPipe

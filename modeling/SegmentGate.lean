import SegmentGate.Bus
import SegmentGate.Event.LogLine
import SegmentGate.Fanout.Listener
import SegmentGate.Gate.Call
import SegmentGate.Gate.Delivery
import SegmentGate.Gate.ReportQueue
import SegmentGate.Proofs.Answers
import SegmentGate.Proofs.Arrivals
import SegmentGate.Proofs.Broadcast
import SegmentGate.Proofs.Capacity
import SegmentGate.Proofs.Completions
import SegmentGate.Proofs.CutShort
import SegmentGate.Proofs.Deliveries
import SegmentGate.Proofs.Departures
import SegmentGate.Proofs.Emitting
import SegmentGate.Proofs.EventLog
import SegmentGate.Proofs.Failures
import SegmentGate.Proofs.Faithful
import SegmentGate.Proofs.Fate
import SegmentGate.Proofs.Finished
import SegmentGate.Proofs.FirstSignal
import SegmentGate.Proofs.Freshness
import SegmentGate.Proofs.Grammar
import SegmentGate.Proofs.HandOver
import SegmentGate.Proofs.Interchange
import SegmentGate.Proofs.Isolation
import SegmentGate.Proofs.Listening
import SegmentGate.Proofs.LogLines
import SegmentGate.Proofs.Newest
import SegmentGate.Proofs.Places
import SegmentGate.Proofs.Readmission
import SegmentGate.Proofs.Relay
import SegmentGate.Proofs.Reports
import SegmentGate.Proofs.Restart
import SegmentGate.Proofs.RoundTrip
import SegmentGate.Proofs.Shutdown
import SegmentGate.Proofs.Surroundings
import SegmentGate.Proofs.Traffic
import SegmentGate.Proofs.ZeroLimit
import SegmentGate.Segment.Target
import SegmentGate.Service.Operation
import SegmentGate.Settings
import SegmentGate.Snapshot.InFile
import SegmentGate.Snapshot.InMemory
import SegmentGate.Suspension.Channel

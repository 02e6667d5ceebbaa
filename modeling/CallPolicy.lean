import CallPolicy.Report
import CallPolicy.Proofs.BreakerLaws
import CallPolicy.Proofs.OpenWindow
import CallPolicy.Proofs.Bulkhead
import CallPolicy.Proofs.Confined
import CallPolicy.Proofs.Docile
import CallPolicy.Proofs.DocileLayers
import CallPolicy.Proofs.DocileScript
import CallPolicy.Proofs.Lives
import CallPolicy.Proofs.Timely
import CallPolicy.Proofs.Rejection
import CallPolicy.Proofs.Balance
import CallPolicy.Proofs.Deadline
import CallPolicy.Proofs.Heeds
import CallPolicy.Proofs.Cancellation
import CallPolicy.Proofs.Invocations
import CallPolicy.Proofs.Attempts
import CallPolicy.Proofs.Tokens
import CallPolicy.Proofs.Dealings
import CallPolicy.Proofs.Verdicts
import CallPolicy.Proofs.Spans
import CallPolicy.Proofs.Overlap
import CallPolicy.Proofs.InvocationBound
import CallPolicy.Proofs.Composition
import CallPolicy.Proofs.Fallback
import CallPolicy.Proofs.BucketBalance
import CallPolicy.Proofs.LastWrites
import CallPolicy.Proofs.EventOrder
import CallPolicy.Proofs.Noninterference
import CallPolicy.Proofs.BuildFaults
import CallPolicy.Proofs.RetryCourse
import CallPolicy.Proofs.RetrySemantics
import CallPolicy.Proofs.RetrySchedule
import CallPolicy.Proofs.Milestones
import CallPolicy.Proofs.HedgeRace
import CallPolicy.Proofs.FailureViews

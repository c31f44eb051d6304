import LoadableSched.Host
import LoadableSched.Main
import LoadableSched.Class.Run
import LoadableSched.Class.Calls
import LoadableSched.Class.Hearing
import LoadableSched.Class.Requests
import LoadableSched.Class.Inquiries
import LoadableSched.Kernel.Run
import LoadableSched.Session.Run
import LoadableSched.Session.Lifecycle
import LoadableSched.Host.Run
import LoadableSched.Proofs.Table
import LoadableSched.Proofs.Queues
import LoadableSched.Proofs.Callback
import LoadableSched.Proofs.Class.Placing
import LoadableSched.Proofs.Class.Migration
import LoadableSched.Proofs.Class.Retaining
import LoadableSched.Proofs.Class.Serving
import LoadableSched.Proofs.Class.Carrying
import LoadableSched.Proofs.Class.Membership
import LoadableSched.Proofs.Class.Dispatching
import LoadableSched.Proofs.Class.Exclusive
import LoadableSched.Proofs.Class.Conforming
import LoadableSched.Proofs.Class.Standing
import LoadableSched.Proofs.Class.Hearing
import LoadableSched.Proofs.Class.Installing
import LoadableSched.Proofs.Class.Tenure
import LoadableSched.Proofs.Class.Contents
import LoadableSched.Proofs.Class.Refusing
import LoadableSched.Proofs.Class.Requesting
import LoadableSched.Proofs.Class.Consulting
import LoadableSched.Proofs.Class.Walking
import LoadableSched.Proofs.Class.Leading
import LoadableSched.Proofs.Class.Applying
import LoadableSched.Proofs.Class.Departing
import LoadableSched.Proofs.Class.Focusing
import LoadableSched.Proofs.Class.Advancing
import LoadableSched.Proofs.Policy.Shipped
import LoadableSched.Proofs.Class.Contract
import LoadableSched.Proofs.Class.Ledger
import LoadableSched.Proofs.Policy.Pooling
import LoadableSched.Proofs.Class.Growing
import LoadableSched.Proofs.Class.InOrder
import LoadableSched.Proofs.Class.Driving
import LoadableSched.Proofs.Class.Conserving
import LoadableSched.Proofs.Policy.Draining
import LoadableSched.Proofs.Policy.Directing
import LoadableSched.Proofs.Class.Stationing
import LoadableSched.Proofs.Class.Turning
import LoadableSched.Proofs.Class.Claiming
import LoadableSched.Proofs.Class.Copying
import LoadableSched.Proofs.Class.Recording
import LoadableSched.Proofs.Naming
import LoadableSched.Proofs.Class.Creating
import LoadableSched.Proofs.Policy.Prioritizing
import LoadableSched.Proofs.Policy.Bookkeeping
import LoadableSched.Proofs.Class.Episodes
import LoadableSched.Proofs.Class.Opening
import LoadableSched.Proofs.Policy.Sampling
import LoadableSched.Store.Run
import LoadableSched.Proofs.Word
import LoadableSched.Proofs.Recency
import LoadableSched.Proofs.Mapping
import LoadableSched.Counters.Crowd
import LoadableSched.Proofs.Counting
import LoadableSched.Proofs.Policy.Stamping
import LoadableSched.Proofs.Policy.Timing
import LoadableSched.Proofs.Averaging
import LoadableSched.Proofs.Class.Lasting
import LoadableSched.Proofs.Policy.Smoothing
import LoadableSched.Proofs.Class.Supplying
import LoadableSched.Workload.Run
import LoadableSched.Workload.Operations
import LoadableSched.Workload.Overflow
import LoadableSched.Proofs.Workload.Sleeping
import LoadableSched.Proofs.Workload.Tending
import LoadableSched.Proofs.Workload.Stepping
import LoadableSched.Proofs.Workload.Running
import LoadableSched.Proofs.Workload.Driving
import LoadableSched.Proofs.Workload.Progressing
import LoadableSched.Proofs.Workload.Overflowing
import LoadableSched.Workload.Meter
import LoadableSched.Proofs.Workload.Charging
import LoadableSched.Proofs.Session.Tracking
import LoadableSched.Proofs.Session.Releasing
import LoadableSched.Proofs.Session.Taking
import LoadableSched.Proofs.Session.Attaching
import LoadableSched.Proofs.Session.Loading
import LoadableSched.Proofs.Session.Closing
import LoadableSched.Proofs.Session.Running
import LoadableSched.Proofs.Session.Aging
import LoadableSched.Proofs.Host.Finishing
import LoadableSched.Proofs.Session.Dismantling
import LoadableSched.Proofs.Session.Moving
import LoadableSched.Proofs.Session.Charting
import LoadableSched.Proofs.Session.Reopening
import LoadableSched.Proofs.Session.Detaching
import LoadableSched.Proofs.Session.Retrying
import LoadableSched.Proofs.Session.Outlasting
import LoadableSched.Proofs.Session.Ordering
import LoadableSched.Proofs.Session.Unbinding
import LoadableSched.Proofs.Session.Aborting
import LoadableSched.Proofs.Session.Sharing
import LoadableSched.Proofs.Session.Lifecycle
import LoadableSched.Proofs.Host.Binding
import LoadableSched.Proofs.Host.Aborting
import LoadableSched.Proofs.Host.Isolation
import LoadableSched.Proofs.Session.Furnishing
import LoadableSched.Proofs.Manifest.RoundTrip
import LoadableSched.Proofs.Kernel.Stepping
import LoadableSched.Proofs.Kernel.Numbering
import LoadableSched.Proofs.Kernel.Giving
import LoadableSched.Proofs.Kernel.Restoring
import LoadableSched.Proofs.Session.Finding
import LoadableSched.Proofs.Session.Marking
import LoadableSched.Json.Basic
import LoadableSched.Json.Number
import LoadableSched.Json.Read
import LoadableSched.Tunables.Document

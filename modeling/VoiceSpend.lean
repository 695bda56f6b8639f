import VoiceSpend.Library.Machine
import VoiceSpend.Library.ReadCommitted
import VoiceSpend.Library.Register
import VoiceSpend.Library.Rounding
import VoiceSpend.Library.Sequence
import VoiceSpend.Library.Table
import VoiceSpend.Store.Columns
import VoiceSpend.Store.Rows
import VoiceSpend.Sync.Schema
import VoiceSpend.Metering.Signal
import VoiceSpend.Sync.Batch
import VoiceSpend.Sync.Upsert
import VoiceSpend.Metering.Usage
import VoiceSpend.Sync.Push
import VoiceSpend.Sync.Truthful
import VoiceSpend.Sync.Isolation
import VoiceSpend.Sync.Convergence
import VoiceSpend.Webhooks.Event
import VoiceSpend.Webhooks.Handler
import VoiceSpend.Webhooks.History
import VoiceSpend.Webhooks.Meaning
import VoiceSpend.Webhooks.Order
import VoiceSpend.Webhooks.Concurrent
import VoiceSpend.Webhooks.Watermark
import VoiceSpend.Fx.Convert
import VoiceSpend.Fx.Recompute
import VoiceSpend.Sync.Pull
import VoiceSpend.Concurrency.System
import VoiceSpend.Concurrency.Steps
import VoiceSpend.Concurrency.Counting
import VoiceSpend.Concurrency.Ownership
import VoiceSpend.Concurrency.SpentAt
import VoiceSpend.Concurrency.Staleness
import VoiceSpend.Concurrency.Cursor
import VoiceSpend.Concurrency.Serial
import VoiceSpend.Webhooks.Serial
import VoiceSpend.Library.Prefix
import VoiceSpend.Fx.Sweep
import VoiceSpend.Fx.Backlog
import VoiceSpend.Fx.Overflow
import VoiceSpend.Fx.Ingest
import VoiceSpend.Fx.Normalize
import VoiceSpend.Fx.CrossRate
import VoiceSpend.Accounts.Provision
import VoiceSpend.Accounts.Authentication
import VoiceSpend.Sync.Writes
import VoiceSpend.Sync.Pagination
import VoiceSpend.Sync.Replay
import VoiceSpend.Concurrency.Replay
import VoiceSpend.Sync.Stepwise
import VoiceSpend.Parse.Extraction
import VoiceSpend.Parse.Pipeline
import VoiceSpend.Parse.Displayed
import VoiceSpend.Parse.Endpoints
import VoiceSpend.Parse.Quota
import VoiceSpend.Parse.Spending
import VoiceSpend.Library.AsOf
import VoiceSpend.Fx.History
import VoiceSpend.Fx.Effect
import VoiceSpend.Sync.RoundTrip
import VoiceSpend.Webhooks.Answers
import VoiceSpend.Fx.Usable
import VoiceSpend.Webhooks.ExactlyOnce
import VoiceSpend.Library.Locking
import VoiceSpend.Concurrency.Deadlock
import VoiceSpend.Library.FixedWindow
import VoiceSpend.RateLimit.Limiter
import VoiceSpend.RateLimit.Bounds
import VoiceSpend.RateLimit.Isolation
import VoiceSpend.RateLimit.RetryAfter
import VoiceSpend.Library.Overlay
import VoiceSpend.Fx.Storable
import VoiceSpend.Fx.Backfill
import VoiceSpend.Concurrency.ServerSeq
import VoiceSpend.Concurrency.UpdatedAt
import VoiceSpend.Observability.Middleware
import VoiceSpend.Observability.RequestId
import VoiceSpend.Observability.Logging
import VoiceSpend.Library.Emission
import VoiceSpend.Observability.Counters
import VoiceSpend.Observability.Metrics
import VoiceSpend.Observability.Cardinality
import VoiceSpend.Library.Census
import VoiceSpend.Library.CommitOrder
import VoiceSpend.Library.Dict
import VoiceSpend.Library.JsonText
import VoiceSpend.Concurrency.CommitOrder
import VoiceSpend.Concurrency.Convergence
import VoiceSpend.Concurrency.Progress
import VoiceSpend.RateLimit.Outage
import VoiceSpend.Sync.Replicas
import VoiceSpend.Webhooks.Progress
import VoiceSpend.Worker.Tasks
import VoiceSpend.Worker.Runs
import VoiceSpend.Worker.BaseCurrency
import VoiceSpend.Api.Requests
import VoiceSpend.Api.Tenants

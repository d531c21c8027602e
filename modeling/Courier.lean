import Courier.AbortSignal
import Courier.Attributes
import Courier.Bytes
import Courier.Client.Build
import Courier.Client.Event
import Courier.Client.Execution
import Courier.Client.Handler
import Courier.Client.Pause
import Courier.Client.Polling
import Courier.Client.State
import Courier.Client.Streaming
import Courier.Config.Basic
import Courier.Config.Json
import Courier.Digest.Base64
import Courier.Digest.EntityTag
import Courier.Digest.Md5
import Courier.Duration
import Courier.Error
import Courier.EventLoop
import Courier.Http.Body
import Courier.Http.Endpoint
import Courier.Http.Headers
import Courier.Http.Json
import Courier.Http.Message
import Courier.Http.Request
import Courier.Http.Response
import Courier.Integrity.Interceptor
import Courier.Integrity.Strategy
import Courier.Integrity.Trailing.Reader
import Courier.Integrity.Trailing.Splitter
import Courier.Integrity.Upload
import Courier.Interceptor
import Courier.Json.Basic
import Courier.Json.Decode
import Courier.Json.Double
import Courier.Json.Field
import Courier.Json.Lexical
import Courier.Json.Parser
import Courier.Json.Printer
import Courier.Network.Basic
import Courier.Pagination.Items
import Courier.Pagination.Pages
import Courier.Pool.Acquisition
import Courier.Pool.Basic
import Courier.Pool.Calls
import Courier.Pool.Closing
import Courier.Pool.Permits
import Courier.Rehearsal.Caller
import Courier.Rehearsal.Casting
import Courier.Rehearsal.Catalogue
import Courier.Rehearsal.Description
import Courier.Rehearsal.Desk
import Courier.Rehearsal.Duct
import Courier.Rehearsal.Hooks
import Courier.Rehearsal.Play
import Courier.Rehearsal.Sampling
import Courier.Rehearsal.Scene
import Courier.Rehearsal.Stage
import Courier.Retry.Backoff
import Courier.Retry.Condition
import Courier.Retry.Policy
import Courier.Retry.Random
import Courier.Stream.ByteStream
import Courier.Stream.Cells
import Courier.Stream.Channel
import Courier.Stream.Filter
import Courier.Stream.Rules
import Courier.Stream.Subscription
import Courier.Text.Blank
import Courier.Text.Fold
import Courier.Text.Hidden
import Courier.Text.Inspect
import Courier.Text.Numeral
import Courier.Wire.ChunkSize
import Courier.Wire.Connection
import Courier.Wire.Fault
import Courier.Wire.Head
import Courier.Wire.Line
import Courier.Wire.Transport
import Courier.Word
import Courier.Proofs.Stream.Channel
import Courier.Proofs.Stream.Subscription
import Courier.Proofs.Stream.Duct
import Courier.Proofs.Stream.Delivery
import Courier.Proofs.Stream.Demand
import Courier.Proofs.Stream.Handover
import Courier.Proofs.Stream.Wakeups
import Courier.Proofs.Stream.Looks
import Courier.Proofs.Stream.Operations
import Courier.Proofs.Client.Run
import Courier.Proofs.Client.History
import Courier.Proofs.Pool.Site
import Courier.Proofs.Pool.Depot
import Courier.Proofs.Pool.Limit
import Courier.Proofs.Pool.Leaving
import Courier.Proofs.Pool.Capacity
import Courier.Proofs.Pool.Dock
import Courier.Proofs.Pool.Effects
import Courier.Proofs.Client.Tenancy
import Courier.Proofs.Client.Attempt
import Courier.Proofs.Client.Story
import Courier.Proofs.Client.Hearing
import Courier.Proofs.Client.Protocol
import Courier.Proofs.Client.Retrying
import Courier.Proofs.Client.Aborting
import Courier.Proofs.Http.Headers
import Courier.Proofs.Integrity.Hooks
import Courier.Proofs.Client.Collector
import Courier.Proofs.Client.Pump
import Courier.Proofs.Stream.Relay
import Courier.Proofs.Client.Gathering
import Courier.Proofs.Client.Collecting
import Courier.Proofs.Client.Download
import Courier.Proofs.Wire.Line
import Courier.Proofs.Text.Utf8
import Courier.Proofs.Text.Numeral
import Courier.Proofs.Http.Address
import Courier.Proofs.Wire.Arrival
import Courier.Proofs.Wire.Decoding
import Courier.Proofs.Wire.Sending
import Courier.Proofs.Wire.Segmentation
import Courier.Proofs.Wire.HeadText
import Courier.Proofs.Wire.BodyText
import Courier.Proofs.Wire.Conversation
import Courier.Proofs.Wire.Reading
import Courier.Proofs.Wire.Reuse
import Courier.Proofs.Pool.Accounting
import Courier.Proofs.Pool.Exclusive
import Courier.Proofs.Pool.Closed
import Courier.Proofs.Client.Course
import Courier.Proofs.Integrity.Uploading
import Courier.Proofs.Client.Upload
import Courier.Proofs.Client.Withholding
import Courier.Proofs.Client.OneShot
import Courier.Proofs.Client.Fidelity
import Courier.Proofs.Stream.Folding
import Courier.Proofs.Integrity.Validity
import Courier.Proofs.Integrity.Outgoing
import Courier.Proofs.Client.Resending
import Courier.Proofs.Pool.Queueing
import Courier.Proofs.Pool.Fairness
import Courier.Proofs.Integrity.Draining
import Courier.Proofs.Wire.RequestFraming
import Courier.Proofs.Pagination.Listing
import Courier.Proofs.Json.Lexemes
import Courier.Proofs.Json.Reading
import Courier.Proofs.Json.Records
import Courier.Proofs.Config.RoundTrip
import Courier.Proofs.Integrity.Releasing
import Courier.Proofs.Integrity.Resuming
import Courier.Proofs.Wire.HeadLines
import Courier.Proofs.Wire.RequestChunks
import Courier.Proofs.Pagination.Asking
import Courier.Proofs.Integrity.Refusing
import Courier.Proofs.Integrity.Failing
import Courier.Proofs.Pool.Deeds
import Courier.Proofs.Pool.Dealing
import Courier.Proofs.Pool.Undoing
import Courier.Proofs.Retry.Delays
import Courier.Proofs.Pagination.Flattening
import Courier.Proofs.Integrity.Isolation
import Courier.Proofs.Integrity.Sparing
import Courier.Proofs.Retry.Composition
import Courier.Proofs.Interceptor.Order
import Courier.Proofs.Signal.Callbacks
import Courier.Proofs.Pool.Timeouts
import Courier.Proofs.Client.Timeouts
import Courier.Proofs.Client.Building
import Courier.Proofs.Digest.EntityTag
import Courier.Proofs.Wire.ChunkSize
import Courier.Proofs.Wire.Turns
import Courier.Proofs.Wire.Ending

import AlertSilences.Binary64
import AlertSilences.Binary64.Shortest
import AlertSilences.Decimal
import AlertSilences.Disk
import AlertSilences.Disk.Path
import AlertSilences.Expiry.Action
import AlertSilences.Expiry.Channel
import AlertSilences.Expiry.Queue
import AlertSilences.Expiry.Scheduler
import AlertSilences.Expiry.Trial
import AlertSilences.Failure
import AlertSilences.Filter
import AlertSilences.Host
import AlertSilences.Host.Reply
import AlertSilences.Host.Request
import AlertSilences.Host.Service
import AlertSilences.Instant
import AlertSilences.Instant.Text
import AlertSilences.Json.Error
import AlertSilences.Json.Number
import AlertSilences.Json.Scan
import AlertSilences.Json.Skip
import AlertSilences.Json.Text
import AlertSilences.Json.Value
import AlertSilences.Json.Writer
import AlertSilences.Label
import AlertSilences.Label.Document
import AlertSilences.LogLine
import AlertSilences.Proofs.CatchUp
import AlertSilences.Proofs.Clock
import AlertSilences.Proofs.Coupling
import AlertSilences.Proofs.Disk.Change
import AlertSilences.Proofs.Disk.Path
import AlertSilences.Proofs.HighWater
import AlertSilences.Proofs.Json.Number
import AlertSilences.Proofs.Json.Shape
import AlertSilences.Proofs.Json.Text
import AlertSilences.Proofs.Ledger
import AlertSilences.Proofs.NormalForm
import AlertSilences.Proofs.Operations
import AlertSilences.Proofs.OrderedMap
import AlertSilences.Proofs.Pending
import AlertSilences.Proofs.Progress
import AlertSilences.Proofs.Record.Document
import AlertSilences.Proofs.Run
import AlertSilences.Proofs.Text.Order
import AlertSilences.Proofs.Timing
import AlertSilences.Proofs.Versions
import AlertSilences.Record
import AlertSilences.Record.Document
import AlertSilences.Registry
import AlertSilences.Registry.Batch
import AlertSilences.Registry.Load
import AlertSilences.Silence
import AlertSilences.SilenceId
import AlertSilences.SilenceId.Document
import AlertSilences.Storage.Open
import AlertSilences.Storage.Save
import AlertSilences.Text.Extending
import AlertSilences.Text.Quoted
import AlertSilences.Text.Unprintable
import AlertSilences.Text.Utf8
import AlertSilences.Proofs.Disk.Files
import AlertSilences.Proofs.Disk.Folders
import AlertSilences.Proofs.Storage.Save
import AlertSilences.Proofs.Storage.Saving
import AlertSilences.Proofs.Storage.Open
import AlertSilences.Proofs.Storage.Sharing
import AlertSilences.Proofs.Storage.Opening
import AlertSilences.Proofs.Storage.Reload
import AlertSilences.Proofs.Numbering
import AlertSilences.Proofs.Disk.Elsewhere
import AlertSilences.Proofs.Storage.Attempt
import AlertSilences.Proofs.Storage.Locking
import AlertSilences.Proofs.Host.Custody
import AlertSilences.Proofs.Failures
import AlertSilences.Proofs.Canonical
import AlertSilences.Proofs.Landing
import AlertSilences.Proofs.Json.Grammar
import AlertSilences.Proofs.Json.Reading
import AlertSilences.Proofs.Json.Containers
import AlertSilences.Proofs.Json.Passing
import AlertSilences.Proofs.Record.Meaning
import AlertSilences.Proofs.Record.Reading
import AlertSilences.Proofs.Acceptance
import AlertSilences.Proofs.Json.Passed
import AlertSilences.Proofs.Json.Taken
import AlertSilences.Proofs.Record.Spelling
import AlertSilences.Proofs.Independence
import AlertSilences.Proofs.Closing
import AlertSilences.Proofs.Expiry.Handing
import AlertSilences.Proofs.Expiry.Pruning
import AlertSilences.Proofs.Expiry.Capacity
import AlertSilences.Proofs.Inhibition
import AlertSilences.Proofs.Callback
import AlertSilences.Proofs.Widening
import AlertSilences.Proofs.Agreement
import AlertSilences.Proofs.Faithful
import AlertSilences.Proofs.Expiry.Handling
import AlertSilences.Proofs.Retirement
import AlertSilences.Proofs.Disk.Paving
import AlertSilences.Proofs.Storage.Footprint
import AlertSilences.Proofs.Delay

import SpawnGate.Main
import SpawnGate.World
import SpawnGate.Proofs.Files
import SpawnGate.Proofs.Runs
import SpawnGate.Proofs.Trimming
import SpawnGate.Proofs.Spawn.Decision
import SpawnGate.Proofs.Spawn.Lead
import SpawnGate.Proofs.Spawn.Gate
import SpawnGate.Proofs.Places
import SpawnGate.Proofs.Spawn.Lookup
import SpawnGate.Proofs.Spawn.Entry
import SpawnGate.Proofs.Json.Numerals
import SpawnGate.Proofs.Json.Spelling
import SpawnGate.Proofs.Json.Tokens
import SpawnGate.Proofs.Json.Grammar
import SpawnGate.Proofs.Json.Readable
import SpawnGate.Proofs.Spawn.Unread
import SpawnGate.Proofs.Spawn.Roles
import SpawnGate.Proofs.Spawn.Marker
import SpawnGate.Proofs.Decimal.Rounding
import SpawnGate.Proofs.Decimal.Scaling
import SpawnGate.Proofs.Decimal.Shortest
import SpawnGate.Proofs.Decimal.Exact
import SpawnGate.Proofs.Json.Numbers
import SpawnGate.Proofs.Json.Writing
import SpawnGate.Proofs.Calendar.Reading
import SpawnGate.Proofs.Calendar.Validity
import SpawnGate.Proofs.Lifecycle.Layout
import SpawnGate.Proofs.Lifecycle.Line
import SpawnGate.Proofs.Lifecycle.Hooks
import SpawnGate.Proofs.Json.Inline
import SpawnGate.Proofs.Json.ReadBack
import SpawnGate.Proofs.Json.Doubles
import SpawnGate.Proofs.Json.Padding
import SpawnGate.Proofs.Trees
import SpawnGate.Proofs.Replacement
import SpawnGate.Proofs.Writes
import SpawnGate.Proofs.Lifecycle.Log
import SpawnGate.Proofs.Lifecycle.Request
import SpawnGate.Proofs.Report
import SpawnGate.Proofs.SessionId
import SpawnGate.Proofs.Unmarked
import SpawnGate.Proofs.Recovery
import SpawnGate.Proofs.Arguments
import SpawnGate.Proofs.Environment
import SpawnGate.Proofs.Lifecycle.Sources
import SpawnGate.Proofs.Lifecycle.Trail
import SpawnGate.Proofs.Differing
import SpawnGate.Proofs.Settling
import SpawnGate.Proofs.Stages
import SpawnGate.Proofs.Order
import SpawnGate.Proofs.Lifecycle.Normal
import SpawnGate.Proofs.Lifecycle.Payload
import SpawnGate.Proofs.Spawn.Padding
import SpawnGate.Proofs.Lifecycle.Delivery
import SpawnGate.Proofs.Spawn.Precedence
import SpawnGate.Proofs.Spawn.Tightening
import SpawnGate.Proofs.Spawn.Remedy
import SpawnGate.Proofs.Spawn.Fields
import SpawnGate.Proofs.Wholeness
import SpawnGate.Proofs.Lifecycle.Identity
import SpawnGate.Proofs.Lifecycle.Responses
import SpawnGate.Proofs.Lifecycle.Announcement
import SpawnGate.Proofs.Lifecycle.OneLine

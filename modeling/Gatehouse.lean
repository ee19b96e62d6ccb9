import Gatehouse.Acl.Any
import Gatehouse.Acl.Basic
import Gatehouse.Acl.Combine
import Gatehouse.Acl.Loose
import Gatehouse.Cache.Basic
import Gatehouse.Cache.Key
import Gatehouse.Cache.Loose
import Gatehouse.Cache.Memory
import Gatehouse.Collections.MergeSort
import Gatehouse.Collections.Named
import Gatehouse.Collections.Ordered
import Gatehouse.Context.Forest
import Gatehouse.Decimal.Double
import Gatehouse.Decimal.Reading
import Gatehouse.Decimal.Shortest
import Gatehouse.Digest.Sha256
import Gatehouse.Engine.Action
import Gatehouse.Engine.State
import Gatehouse.Engine.Steps
import Gatehouse.Fault.Arguments
import Gatehouse.Fault.Basic
import Gatehouse.Fault.Kind
import Gatehouse.Model.Asked
import Gatehouse.Model.Basic
import Gatehouse.Model.Definition
import Gatehouse.Model.Expansion
import Gatehouse.Model.LooseExpansion
import Gatehouse.Model.Outline
import Gatehouse.Policy.Basic
import Gatehouse.Policy.Compiled
import Gatehouse.Policy.Loose
import Gatehouse.Policy.Offered
import Gatehouse.Policy.Reading
import Gatehouse.Problem
import Gatehouse.Problem.Data
import Gatehouse.Problem.Host
import Gatehouse.Proofs.Acl.Decision
import Gatehouse.Proofs.Acl.Declared
import Gatehouse.Proofs.Acl.Explanation
import Gatehouse.Proofs.Acl.Growth
import Gatehouse.Proofs.Acl.Instances
import Gatehouse.Proofs.Acl.Union
import Gatehouse.Proofs.Alias.Faults
import Gatehouse.Proofs.Alias.Search
import Gatehouse.Proofs.Cache.Acts
import Gatehouse.Proofs.Cache.Balance
import Gatehouse.Proofs.Cache.Eviction
import Gatehouse.Proofs.Cache.Forgetting
import Gatehouse.Proofs.Cache.Key
import Gatehouse.Proofs.Collections.Combining
import Gatehouse.Proofs.Collections.Ordered
import Gatehouse.Proofs.Collections.Outcome
import Gatehouse.Proofs.Collections.Related
import Gatehouse.Proofs.Context.Cancellation
import Gatehouse.Proofs.Context.History
import Gatehouse.Proofs.Context.Kept
import Gatehouse.Proofs.Context.LetGo
import Gatehouse.Proofs.Context.Parted
import Gatehouse.Proofs.Decimal.Order
import Gatehouse.Proofs.Engine.Acts
import Gatehouse.Proofs.Engine.Balance
import Gatehouse.Proofs.Engine.Cancellation
import Gatehouse.Proofs.Engine.Client
import Gatehouse.Proofs.Engine.Matching
import Gatehouse.Proofs.Engine.SingleFlight
import Gatehouse.Proofs.Model.Closure
import Gatehouse.Proofs.Model.Failures
import Gatehouse.Proofs.Model.Fingerprint
import Gatehouse.Proofs.Model.Growth
import Gatehouse.Proofs.Model.Lifecycle
import Gatehouse.Proofs.Policy.Agreement
import Gatehouse.Proofs.Policy.Compilation
import Gatehouse.Proofs.Policy.Digest
import Gatehouse.Proofs.Policy.Fingerprint
import Gatehouse.Proofs.Policy.Growth
import Gatehouse.Proofs.Policy.Names
import Gatehouse.Proofs.Resolver.Accounted
import Gatehouse.Proofs.Resolver.Anew
import Gatehouse.Proofs.Resolver.Cancelled
import Gatehouse.Proofs.Resolver.Chronicle
import Gatehouse.Proofs.Resolver.Diary
import Gatehouse.Proofs.Resolver.Dropped
import Gatehouse.Proofs.Resolver.Forgotten
import Gatehouse.Proofs.Resolver.Founded
import Gatehouse.Proofs.Resolver.Gathering
import Gatehouse.Proofs.Resolver.Heeded
import Gatehouse.Proofs.Resolver.Lasting
import Gatehouse.Proofs.Resolver.Ledger
import Gatehouse.Proofs.Resolver.Lists
import Gatehouse.Proofs.Resolver.Live
import Gatehouse.Proofs.Resolver.Midway
import Gatehouse.Proofs.Resolver.Models
import Gatehouse.Proofs.Resolver.Orderly
import Gatehouse.Proofs.Resolver.Reported
import Gatehouse.Proofs.Resolver.Rules
import Gatehouse.Proofs.Resolver.Steps
import Gatehouse.Proofs.Resolver.Stored
import Gatehouse.Proofs.Resolver.Transparent
import Gatehouse.Proofs.Resolver.Underway
import Gatehouse.Proofs.Resolver.Undisturbed
import Gatehouse.Proofs.Web.Bearer
import Gatehouse.Proofs.Web.Guard
import Gatehouse.Resolver.Config
import Gatehouse.Resolver.Host
import Gatehouse.Resolver.Resolution
import Gatehouse.Session.Basic
import Gatehouse.Session.Builders
import Gatehouse.Session.Caches
import Gatehouse.Session.Held
import Gatehouse.Session.Item
import Gatehouse.Session.Models
import Gatehouse.Session.Services
import Gatehouse.Session.Stores
import Gatehouse.Settings.Basic
import Gatehouse.Text
import Gatehouse.Text.Blank
import Gatehouse.Text.Canonical
import Gatehouse.Text.Clipped
import Gatehouse.Text.Hex
import Gatehouse.Text.Printable
import Gatehouse.Text.Quoted
import Gatehouse.Text.Utf16
import Gatehouse.Text.Utf8
import Gatehouse.Validation.Display
import Gatehouse.Validation.Report
import Gatehouse.Validation.Scalar
import Gatehouse.Value
import Gatehouse.Value.Document
import Gatehouse.Value.Normal
import Gatehouse.Value.Order
import Gatehouse.Web.Bearer
import Gatehouse.Web.Guard

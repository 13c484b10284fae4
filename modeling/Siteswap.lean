import Siteswap.Main
import Siteswap.Advisor
import Siteswap.Stepwise
import Siteswap.Practice.Repetition
import Siteswap.Practice.Tracker
import Siteswap.Practice.Act
import Siteswap.Sequence.Document
import Siteswap.Proofs.Entries
import Siteswap.Proofs.Results
import Siteswap.Proofs.Distinct
import Siteswap.Proofs.Alphabet
import Siteswap.Proofs.Pattern.Reading
import Siteswap.Proofs.Rotation.Endless
import Siteswap.Proofs.Rotation.Root
import Siteswap.Proofs.Rotation.Leading
import Siteswap.Proofs.Rotation.Primitive
import Siteswap.Proofs.Rotation.Statistics
import Siteswap.Proofs.Canonical.Equivalence
import Siteswap.Proofs.Canonical.Texts
import Siteswap.Proofs.Validity.Checks
import Siteswap.Proofs.Validity.Juggling
import Siteswap.Proofs.Validity.Permutation
import Siteswap.Proofs.Validity.InTheAir
import Siteswap.Proofs.Validity.Respelling
import Siteswap.Proofs.Validity.Cycle
import Siteswap.Proofs.Validity.Collisions
import Siteswap.Proofs.Validity.Hands
import Siteswap.Proofs.Number.Shortest
import Siteswap.Proofs.Json.Strings
import Siteswap.Proofs.Json.Numbers
import Siteswap.Proofs.Json.RoundTrip
import Siteswap.Proofs.Json.Nesting
import Siteswap.Proofs.Json.Levels
import Siteswap.Proofs.Json.Counts
import Siteswap.Proofs.Json.Keys
import Siteswap.Proofs.Practice.Stored
import Siteswap.Proofs.Practice.Journal
import Siteswap.Proofs.Practice.Summary
import Siteswap.Proofs.Practice.History
import Siteswap.Proofs.Practice.Isolation
import Siteswap.Proofs.Practice.Recovery
import Siteswap.Proofs.Practice.Repetition
import Siteswap.Proofs.Canonical.Acceptance
import Siteswap.Proofs.Stepwise
import Siteswap.Proofs.Canonical.Orbit
import Siteswap.Proofs.Canonical.Stability
import Siteswap.Proofs.Canonical.Statistics
import Siteswap.Proofs.Agreement
import Siteswap.Proofs.Search.Acceptance
import Siteswap.Proofs.Search.Bounds
import Siteswap.Proofs.Search.Walk
import Siteswap.Proofs.Search.Candidates
import Siteswap.Proofs.Search.Enumeration
import Siteswap.Proofs.Search.Soundness
import Siteswap.Proofs.Search.Feasibility
import Siteswap.Proofs.Search.Stack
import Siteswap.Proofs.Search.Order
import Siteswap.Proofs.Search.Pruning
import Siteswap.Proofs.Search.Completeness
import Siteswap.Proofs.Memo.History
import Siteswap.Proofs.Catalog.Shelf
import Siteswap.Proofs.Catalog.Lengths
import Siteswap.Proofs.Catalog.Objects
import Siteswap.Proofs.Catalog.Selection
import Siteswap.Proofs.Catalog.Bands
import Siteswap.Proofs.Catalog.Labels
import Siteswap.Proofs.Program.Export

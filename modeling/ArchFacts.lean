import ArchFacts.Host.Volume
import ArchFacts.Main
import ArchFacts.Proofs.Attributes
import ArchFacts.Proofs.Store.Index
import ArchFacts.Proofs.Token.Quote
import ArchFacts.Proofs.Store.Coherent
import ArchFacts.Proofs.Store.Update
import ArchFacts.Proofs.Store.Step
import ArchFacts.Proofs.Except
import ArchFacts.Proofs.Store.Pass
import ArchFacts.Proofs.Store.WellFormed
import ArchFacts.Proofs.History
import ArchFacts.Proofs.Document.Statement
import ArchFacts.Proofs.Document.Line
import ArchFacts.Proofs.Document.Statements
import ArchFacts.Proofs.Document.RoundTrip
import ArchFacts.Proofs.Store.Fill
import ArchFacts.Proofs.Document.Facts
import ArchFacts.Proofs.Document.OfStore
import ArchFacts.Proofs.Store.RoundTrip
import ArchFacts.Proofs.Document.Parse
import ArchFacts.Proofs.Document.Headers
import ArchFacts.Proofs.Snapshot.Codec
import ArchFacts.Proofs.Snapshot.RoundTrip
import ArchFacts.Proofs.Snapshot.Decode
import ArchFacts.Proofs.Hierarchy
import ArchFacts.Proofs.Store.Grounded
import ArchFacts.Proofs.Command.Ingest
import ArchFacts.Proofs.Store.Offer
import ArchFacts.Proofs.Document.Dangling
import ArchFacts.Proofs.Snapshot.History
import ArchFacts.Proofs.SafeHistory
import ArchFacts.Proofs.Document.Repeat
import ArchFacts.Proofs.Document.Reload
import ArchFacts.Proofs.Document.Reorder
import ArchFacts.Proofs.Document.Meaning
import ArchFacts.Proofs.Document.Failure
import ArchFacts.Proofs.Hierarchy.Install
import ArchFacts.Proofs.Hierarchy.Attach
import ArchFacts.Proofs.Store.Alike
import ArchFacts.Proofs.Record.Exchange
import ArchFacts.Proofs.Snapshot.Truncated
import ArchFacts.Proofs.Snapshot.Rewrite
import ArchFacts.Proofs.Host.FilePath
import ArchFacts.Proofs.Host.Volume
import ArchFacts.Proofs.FactFile.Volume
import ArchFacts.Proofs.FactFile.Convert
import ArchFacts.Proofs.Store.Resolve
import ArchFacts.Proofs.Store.Insertion
import ArchFacts.Proofs.Store.Removal
import ArchFacts.Proofs.Document.Growth
import ArchFacts.Proofs.Document.Grammar
import ArchFacts.Proofs.Document.FirstProblem
import ArchFacts.Proofs.Token.Comment
import ArchFacts.Proofs.Path.Place
import ArchFacts.Proofs.Hierarchy.Containers
import ArchFacts.Proofs.Hierarchy.Nesting
import ArchFacts.Proofs.Attributes.History
import ArchFacts.Proofs.Hierarchy.Walk
import ArchFacts.Proofs.Record.Replay
import ArchFacts.Proofs.Token.Position
import ArchFacts.Proofs.Document.Wanted

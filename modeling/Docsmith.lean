import Docsmith.Config.Debug
import Docsmith.Main
import Docsmith.Proofs.FileTree.Growth
import Docsmith.Sink.Memory
import Docsmith.Proofs.Path.Name
import Docsmith.Proofs.Sink.Race
import Docsmith.Proofs.Sink.Temporary
import Docsmith.Proofs.FileTree.Staging
import Docsmith.Proofs.Sink.Custody
import Docsmith.Proofs.Sink.Ledger
import Docsmith.Proofs.Sink.Overwrite
import Docsmith.Proofs.FileTree.LinkFree
import Docsmith.Proofs.Sink.Suffix
import Docsmith.Proofs.Sink.Answer
import Docsmith.Proofs.Sink.Sequence
import Docsmith.Proofs.Diagram.FileName
import Docsmith.Proofs.Sink.Log
import Docsmith.Proofs.Generation.Record
import Docsmith.Proofs.Generation.Paths
import Docsmith.Proofs.Diagram.Privacy
import Docsmith.Proofs.Scan.Members
import Docsmith.Proofs.Scan.Links
import Docsmith.Proofs.Generation.Schedule
import Docsmith.Proofs.Generation.Sequential
import Docsmith.Proofs.Generation.Report
import Docsmith.Proofs.Generation.Calls
import Docsmith.Proofs.Generation.Confinement
import Docsmith.Proofs.Generation.Undisturbed
import Docsmith.Proofs.Generation.Standing
import Docsmith.Proofs.Model.Inquiry
import Docsmith.Proofs.Source.PythonScopes
import Docsmith.Proofs.Source.JavaOwners
import Docsmith.Proofs.Model.Exchange
import Docsmith.Proofs.Source.JavaComments
import Docsmith.Proofs.Config.Merged
import Docsmith.Proofs.Toml.Strings
import Docsmith.Proofs.Toml.Words
import Docsmith.Proofs.Toml.Keys
import Docsmith.Proofs.Toml.Values
import Docsmith.Proofs.Toml.Sections
import Docsmith.Proofs.Toml.Documents
import Docsmith.Proofs.Config.Reload
import Docsmith.Proofs.Config.Precedence
import Docsmith.Proofs.Generation.Keys
import Docsmith.Proofs.Scan.Pool
import Docsmith.Proofs.Diagram.Layout
import Docsmith.Proofs.Diagram.Mentions
import Docsmith.Proofs.Document.Grouping
import Docsmith.Proofs.Generation.OwnTexts
import Docsmith.Proofs.Text.Word
import Docsmith.Proofs.Document.Overview
import Docsmith.Proofs.Diagram.FieldType
import Docsmith.Proofs.Source.Parameters
import Docsmith.Proofs.Source.Docstring
import Docsmith.Proofs.Source.Turns
import Docsmith.Proofs.Model.Payload
import Docsmith.Proofs.Model.Answer
import Docsmith.Proofs.Config.Overrides
import Docsmith.Proofs.Scan.Selection
import Docsmith.Proofs.Element.Membership
import Docsmith.Proofs.Diagram.Shortening
import Docsmith.Proofs.Model.Endpoint
import Docsmith.Proofs.Sink.Search
import Docsmith.Proofs.Diagram.QualifierPlaces
import Docsmith.Proofs.Source.Header
import Docsmith.Proofs.Source.JavaNoise

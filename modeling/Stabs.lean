import Stabs.Main
import Stabs.Samples
import Stabs.Proofs.Description.Emission
import Stabs.Proofs.Description.Progress
import Stabs.Proofs.Description.Outcome
import Stabs.Proofs.Description.Segments
import Stabs.Proofs.Unit.Tasks
import Stabs.Proofs.Unit.Walk
import Stabs.Proofs.Unit.Journal
import Stabs.Proofs.Description.References
import Stabs.Proofs.Unit.References
import Stabs.Proofs.Readback.Reader
import Stabs.Proofs.Readback.Scanning
import Stabs.Proofs.Readback.Contents
import Stabs.Proofs.Readback.References
import Stabs.Proofs.Unit.Scopes
import Stabs.Proofs.Readback.Unit
import Stabs.Proofs.Unit.Demand
import Stabs.Proofs.Unit.Requests
import Stabs.Proofs.Unit.Closure
import Stabs.Proofs.Unit.Describable
import Stabs.Proofs.Description.Layout
import Stabs.Proofs.Description.Cuts
import Stabs.Proofs.Renaming.Unit
import Stabs.Proofs.Unit.Markers
import Stabs.Proofs.Unit.Declarations
import Stabs.Proofs.Unit.Delimiters
import Stabs.Proofs.Unit.Appending
import Stabs.Proofs.Unit.Tags
import Stabs.Proofs.Unit.Targets
import Stabs.Proofs.Listing.Reader
import Stabs.Proofs.Listing.Unit
import Stabs.Proofs.Json.Spelling
import Stabs.Proofs.Json.Writer
import Stabs.Proofs.Json.Depth
import Stabs.Proofs.Interchange.Shape
import Stabs.Proofs.Interchange.Rearranged
import Stabs.Proofs.Interchange.Keys
import Stabs.Proofs.Interchange.Exact
import Stabs.Proofs.Interchange.Unit
import Stabs.Proofs.Toml.Text
import Stabs.Proofs.Toml.Lines
import Stabs.Proofs.Toml.Tables
import Stabs.Proofs.Interchange.Layouts
import Stabs.Proofs.Interchange.Target
import Stabs.Proofs.Description.Termination
import Stabs.Proofs.Unit.Flushing
import Stabs.Proofs.Unit.Succession
import Stabs.Proofs.Unit.Omission
import Stabs.Proofs.Unit.Typedefs
import Stabs.Proofs.Unit.Repetition
import Stabs.Proofs.Numbering.History
import Stabs.Proofs.Description.Abandoned
import Stabs.Proofs.Types.Operations
import Stabs.Proofs.Program.Registers

import ValidatorGen.Artifact.Assembly
import ValidatorGen.Schema.Document
import ValidatorGen.Settings.Load
import ValidatorGen.Proofs.Schema.RoundTrip
import ValidatorGen.Proofs.Validator.Agreement
import ValidatorGen.Proofs.Validator.Layers
import ValidatorGen.Proofs.Validator.Nesting
import ValidatorGen.Proofs.Artifact.Agreement
import ValidatorGen.Proofs.Artifact.Identifiers
import ValidatorGen.Proofs.Artifact.Locality
import ValidatorGen.Proofs.Artifact.Options
import ValidatorGen.Proofs.Artifact.Order
import ValidatorGen.Proofs.Artifact.Paragraphs
import ValidatorGen.Proofs.Artifact.References
import ValidatorGen.Proofs.Artifact.Unused
import ValidatorGen.Proofs.Artifact.Uses
import ValidatorGen.Proofs.Artifact.Reports
import ValidatorGen.Proofs.Schema.Loaded
import ValidatorGen.Proofs.Artifact.Loaded
import ValidatorGen.Proofs.Artifact.Imports
import ValidatorGen.Proofs.Target.Wording
import ValidatorGen.Proofs.Validator.Recovery
import ValidatorGen.Proofs.Schema.Flaws
import ValidatorGen.Proofs.Validator.Placeholders
import ValidatorGen.Proofs.Validator.Patterns
import ValidatorGen.Proofs.Artifact.Failures
import ValidatorGen.Proofs.Schema.TypeText
import ValidatorGen.Proofs.Schema.TypeFaults
import ValidatorGen.Proofs.Validator.Sequence
import ValidatorGen.Proofs.Artifact.Shorthand
import ValidatorGen.Proofs.Artifact.Entries
import ValidatorGen.Proofs.Artifact.History
import ValidatorGen.Proofs.Validator.Lookup
import ValidatorGen.Proofs.Validator.Literals
import ValidatorGen.Proofs.Settings.Keys
import ValidatorGen.Proofs.Artifact.Enumerations
import ValidatorGen.Proofs.Artifact.Backends
import ValidatorGen.Proofs.Text.Margin

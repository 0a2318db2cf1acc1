import Assay.Number.Text
import Assay.Number.Basic
import Assay.Text.Quoted
import Assay.Failure
import Assay.Pattern.Match
import Assay.Pattern.Reader
import Assay.Options.Source
import Assay.Mode.Source
import Assay.Checker.Literal
import Assay.Format.Siret
import Assay.Format.AddressV6
import Assay.Format.Shapes
import Assay.Factory
import Assay.Schema.Basic
import Assay.Mode.Environment
import Assay.Mode.File
import Assay.Catalogue
import Assay.Checker.Stock
import Assay.Registration
import Assay.Proofs.Fields
import Assay.Proofs.Layout
import Assay.Proofs.Frame
import Assay.Proofs.Steps
import Assay.Proofs.Agenda
import Assay.Proofs.Paths
import Assay.Proofs.BuiltIn
import Assay.Proofs.BuiltInSchema
import Assay.Proofs.Transport
import Assay.Proofs.Satisfaction
import Assay.Proofs.WriteBack
import Assay.Proofs.Language
import Assay.Proofs.Spelling
import Assay.Proofs.Settled
import Assay.Proofs.Thaw
import Assay.Proofs.Plant
import Assay.Proofs.Resanitizing
import Assay.Proofs.Refusal
import Assay.Proofs.Order
import Assay.Proofs.Interruption
import Assay.Proofs.Rerun
import Assay.Proofs.Agreement
import Assay.Proofs.Trace
import Assay.Proofs.Current
import Assay.Proofs.Fulfilment
import Assay.Proofs.Lenience
import Assay.Proofs.Tampering
import Assay.Proofs.Losses
import Assay.Proofs.Dropping
import Assay.Proofs.Compilation
import Assay.Proofs.Rearrangement
import Assay.Proofs.Embedding
import Assay.Proofs.Location
import Assay.Proofs.Nesting
import Assay.Proofs.Independence
import Assay.Proofs.Making
import Assay.Proofs.Keys
import Assay.Proofs.Registrations
import Assay.Proofs.Chain
import Assay.Proofs.Checksum
import Assay.Proofs.Formats
import Assay.Proofs.Establishment
import Assay.Proofs.Address
import Assay.Proofs.Grouping
import Assay.Proofs.Limits
import Assay.Proofs.Mail
import Assay.Proofs.Wholeness
import Assay.Proofs.DottedQuad
import Assay.Proofs.Precedence
import Assay.Proofs.Composition
import Assay.Proofs.ExactValue
import Assay.Proofs.References
import Assay.Proofs.Unrelated

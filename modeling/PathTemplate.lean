import PathTemplate.Number.Decimal
import PathTemplate.Number.Integer
import PathTemplate.Session
import PathTemplate.Text.Codec
import PathTemplate.Proofs.Interchange
import PathTemplate.Proofs.Reading.Escaped
import PathTemplate.Proofs.Renderer.Validation
import PathTemplate.Proofs.Route.Absence
import PathTemplate.Proofs.Route.Ascii
import PathTemplate.Proofs.Route.Containment
import PathTemplate.Proofs.Route.Encoded
import PathTemplate.Proofs.Route.Relaxing
import PathTemplate.Proofs.Route.Scanning
import PathTemplate.Proofs.Route.Segments
import PathTemplate.Proofs.Shorthands
import PathTemplate.Proofs.Slots
import PathTemplate.Proofs.Tables
import PathTemplate.Proofs.Token.Braces
import PathTemplate.Proofs.Token.Faults
import PathTemplate.Proofs.Token.WellFormed
import PathTemplate.Proofs.Token.Writing

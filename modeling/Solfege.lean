import Solfege.Abc.Emission
import Solfege.Abc.Notation
import Solfege.Abc.Options
import Solfege.Beat
import Solfege.Clock
import Solfege.Command.Arguments
import Solfege.Command.Disk
import Solfege.Command.Path
import Solfege.Command.Run
import Solfege.Compile
import Solfege.Decimal.Binary
import Solfege.Decimal.Positional
import Solfege.Decimal.Shortest
import Solfege.Duration
import Solfege.Error
import Solfege.Event
import Solfege.FrontMatter
import Solfege.FrontMatter.Metadata
import Solfege.Item
import Solfege.Main
import Solfege.Pitch
import Solfege.Program
import Solfege.Proofs.AllOrNothing
import Solfege.Proofs.AppendOnly
import Solfege.Proofs.BadLine
import Solfege.Proofs.BareCounter
import Solfege.Proofs.Blocks
import Solfege.Proofs.ByteCursor
import Solfege.Proofs.Decodable
import Solfege.Proofs.EndOfInput
import Solfege.Proofs.ExactBeat
import Solfege.Proofs.FirstViolation
import Solfege.Proofs.FixedBars
import Solfege.Proofs.Fragments
import Solfege.Proofs.FreshMeasure
import Solfege.Proofs.InPlace
import Solfege.Proofs.Inscription
import Solfege.Proofs.LexAppend
import Solfege.Proofs.LexForms
import Solfege.Proofs.LexLines
import Solfege.Proofs.LineByLine
import Solfege.Proofs.LineEndings
import Solfege.Proofs.LineFault
import Solfege.Proofs.LineForm
import Solfege.Proofs.LineGrammar
import Solfege.Proofs.Lines
import Solfege.Proofs.Lossless
import Solfege.Proofs.Readings
import Solfege.Proofs.Refusal
import Solfege.Proofs.RoundTrip
import Solfege.Proofs.Saturation
import Solfege.Proofs.ScopeHistory
import Solfege.Proofs.SharedScopes
import Solfege.Proofs.SheetLayout
import Solfege.Proofs.Sixteenths
import Solfege.Proofs.Spelling
import Solfege.Proofs.Written
import Solfege.Scopes
import Solfege.Source
import Solfege.Text.Alphabetic
import Solfege.Text.Blank
import Solfege.Text.Hexadecimal
import Solfege.Text.Line
import Solfege.Token
import Solfege.Token.Lexer
import Solfege.Validation
import Solfege.Yaml.Cell
import Solfege.Yaml.Directive
import Solfege.Yaml.Fields
import Solfege.Yaml.Layout
import Solfege.Yaml.Node
import Solfege.Yaml.Scalar
import Solfege.Yaml.Tag

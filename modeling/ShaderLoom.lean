import ShaderLoom.Number.Binary64
import ShaderLoom.Number.Decimal
import ShaderLoom.Number.Written
import ShaderLoom.Number.Reading
import ShaderLoom.Text.Blank
import ShaderLoom.Text.Digit
import ShaderLoom.Text.Word
import ShaderLoom.Text.Printable
import ShaderLoom.Text.LetterCase
import ShaderLoom.Text.Quoted
import ShaderLoom.Text.SnakeCase
import ShaderLoom.Value.Entries
import ShaderLoom.Value.Basic
import ShaderLoom.Value.Display
import ShaderLoom.Kind
import ShaderLoom.Schema.Problem
import ShaderLoom.Fault
import ShaderLoom.Value.Convert
import ShaderLoom.Schema.Basic
import ShaderLoom.Schema.Check
import ShaderLoom.Schema.Shader
import ShaderLoom.Text.Fragment
import ShaderLoom.Text.Lines
import ShaderLoom.Literal
import ShaderLoom.Color
import ShaderLoom.Palette
import ShaderLoom.Vignette
import ShaderLoom.Config.Basic
import ShaderLoom.Config.Decode
import ShaderLoom.Config.Amend
import ShaderLoom.Noise
import ShaderLoom.Effect.Catalog
import ShaderLoom.Program
import ShaderLoom.Preset
import ShaderLoom.Token
import ShaderLoom.Morph.Edit
import ShaderLoom.Morph.Declarations
import ShaderLoom.Morph.Site
import ShaderLoom.Morph.Wrap
import ShaderLoom.Vibe
import ShaderLoom.Json.Written
import ShaderLoom.Json.Reading
import ShaderLoom.Log.Files
import ShaderLoom.Log.Journal
import ShaderLoom.Digest
import ShaderLoom.EnvFile
import ShaderLoom.EnvFile.Reference
import ShaderLoom.Settings
import ShaderLoom.Registry
import ShaderLoom.Proofs.Token.Layout
import ShaderLoom.Proofs.Lexeme.Lookahead
import ShaderLoom.Proofs.Lexeme.Row
import ShaderLoom.Proofs.Lexeme.Significant
import ShaderLoom.Proofs.Lexeme.Transport
import ShaderLoom.Proofs.Lexeme.Unmarked
import ShaderLoom.Proofs.Morph.Braces
import ShaderLoom.Proofs.Morph.Heading
import ShaderLoom.Proofs.Token.Ordered
import ShaderLoom.Proofs.Morph.Returns
import ShaderLoom.Proofs.Morph.Alphas
import ShaderLoom.Proofs.Morph.Swap
import ShaderLoom.Proofs.Morph.Cut
import ShaderLoom.Proofs.Morph.Plan
import ShaderLoom.Proofs.Morph.LineEnd
import ShaderLoom.Proofs.Morph.Anchor
import ShaderLoom.Proofs.Morph.Inserted
import ShaderLoom.Proofs.Morph.Relex
import ShaderLoom.Proofs.Morph.Splice
import ShaderLoom.Proofs.Morph.Entry
import ShaderLoom.Proofs.Morph.Changed
import ShaderLoom.Proofs.Morph.Frame
import ShaderLoom.Proofs.Morph.Dialects
import ShaderLoom.Proofs.Morph.Relexed
import ShaderLoom.Proofs.Morph.Numbered
import ShaderLoom.Proofs.Morph.Loops
import ShaderLoom.Proofs.Morph.Refused
import ShaderLoom.Proofs.Number.Whole
import ShaderLoom.Proofs.Schema.Passing
import ShaderLoom.Proofs.Schema.Shape
import ShaderLoom.Proofs.Schema.Accepted
import ShaderLoom.Proofs.Outcome
import ShaderLoom.Proofs.Config.Settled
import ShaderLoom.Proofs.Config.RoundTrip
import ShaderLoom.Proofs.Value.Equality
import ShaderLoom.Proofs.Registry.Catalog
import ShaderLoom.Proofs.Log.Append
import ShaderLoom.Proofs.Registry.Call
import ShaderLoom.Proofs.Registry.Making
import ShaderLoom.Proofs.Registry.Served
import ShaderLoom.Proofs.Registry.Writable
import ShaderLoom.Proofs.Registry.Transparent
import ShaderLoom.Proofs.Registry.Recorded
import ShaderLoom.Proofs.Number.Numeral
import ShaderLoom.Proofs.Lexeme.Parted
import ShaderLoom.Proofs.Config.Reloaded
import ShaderLoom.Proofs.Program.Composed
import ShaderLoom.Proofs.Program.Items
import ShaderLoom.Proofs.Program.Fragments
import ShaderLoom.Proofs.Program.Constants
import ShaderLoom.Proofs.Program.Entry
import ShaderLoom.Proofs.Program.Layout
import ShaderLoom.Proofs.Program.Length
import ShaderLoom.Proofs.Program.Outline
import ShaderLoom.Proofs.Program.Sites
import ShaderLoom.Proofs.Program.Morphed
import ShaderLoom.Proofs.Number.Rounding
import ShaderLoom.Proofs.Number.Shortest
import ShaderLoom.Proofs.Number.Nearest
import ShaderLoom.Proofs.Number.Digits
import ShaderLoom.Proofs.Value.Reordered
import ShaderLoom.Proofs.Value.Printable
import ShaderLoom.Proofs.Json.Number
import ShaderLoom.Proofs.Json.Text
import ShaderLoom.Proofs.Json.Line
import ShaderLoom.Proofs.Json.Read
import ShaderLoom.Proofs.Log.Journal
import ShaderLoom.Proofs.Number.Pointed
import ShaderLoom.Proofs.Program.Segments
import ShaderLoom.Proofs.Program.Rendered
import ShaderLoom.Proofs.Program.Names
import ShaderLoom.Proofs.Program.Renamed
import ShaderLoom.Proofs.Config.Converted
import ShaderLoom.Proofs.Config.Bounded
import ShaderLoom.Proofs.Color
import ShaderLoom.Proofs.Schema.Exact
import ShaderLoom.Proofs.Schema.Told
import ShaderLoom.Proofs.Lexeme.Opened
import ShaderLoom.Proofs.Lexeme.Gap
import ShaderLoom.Proofs.Morph.Statements
import ShaderLoom.Proofs.Morph.Order
import ShaderLoom.Proofs.Morph.Reading
import ShaderLoom.Proofs.Morph.Scope
import ShaderLoom.Proofs.Morph.Lines
import ShaderLoom.Proofs.Morph.Declared
import ShaderLoom.Proofs.Morph.Redeclared
import ShaderLoom.Proofs.Number.Lexed
import ShaderLoom.Proofs.Number.Spelled
import ShaderLoom.Proofs.Number.Reread
import ShaderLoom.Proofs.Palette
import ShaderLoom.Proofs.Schema.Located
import ShaderLoom.Proofs.Schema.KeyOrder
import ShaderLoom.Proofs.Config.Respelled
import ShaderLoom.Proofs.Registry.Alike
import ShaderLoom.Proofs.Registry.Failed
import ShaderLoom.Proofs.Registry.Returned
import ShaderLoom.Proofs.Registry.Custom
import ShaderLoom.Proofs.Registry.Refused
import ShaderLoom.Proofs.Log.Generation
import ShaderLoom.Proofs.Color.Loose
import ShaderLoom.Proofs.Vibe.Overridden
import ShaderLoom.Proofs.Vibe.Round
import ShaderLoom.Proofs.Token.Complete
import ShaderLoom.Proofs.Morph.Matched
import ShaderLoom.Proofs.Morph.Pieced
import ShaderLoom.Proofs.Token.Numbers
import ShaderLoom.Proofs.Text.SnakeCase

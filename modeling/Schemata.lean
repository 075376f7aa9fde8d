import Schemata.Text.Blank
import Schemata.Text.Word
import Schemata.Text.Digit
import Schemata.Text.Printable
import Schemata.Text.Line
import Schemata.Text.Literal
import Schemata.Text.CommandWords
import Schemata.Text.Template
import Schemata.Number.Binary64
import Schemata.Number.Shortest
import Schemata.Json.Basic
import Schemata.Json.Writer
import Schemata.Json.Reader
import Schemata.Schema.Expr
import Schemata.Schema.Declaration
import Schemata.Schema.Render
import Schemata.Tree.Kind
import Schemata.Tree.Node
import Schemata.Tree.Outline
import Schemata.Doc.Tag
import Schemata.Derive.Report
import Schemata.Derive.SelfReference
import Schemata.Derive.IndexedAccess
import Schemata.Derive.Type
import Schemata.Derive.Statement
import Schemata.Emitted.Pattern
import Schemata.Emitted.StaticLines
import Schemata.Emitted.Renaming
import Schemata.Log
import Schemata.Config.Basic
import Schemata.Files.Path
import Schemata.Files.Store
import Schemata.Files.Atomic
import Schemata.Grammar.Reader
import Schemata.Failure
import Schemata.Session
import Schemata.Formatter
import Schemata.Pipeline
import Schemata.Command.Options
import Schemata.Command.Program
import Schemata.Main
import Schemata.Proofs.Mapping
import Schemata.Proofs.Derive.Judgement
import Schemata.Proofs.Derive.TypeLaw
import Schemata.Proofs.Derive.StatementLaw
import Schemata.Proofs.Derive.StrictSoundness
import Schemata.Proofs.Derive.Registration
import Schemata.Proofs.Derive.Traversal
import Schemata.Proofs.Derive.Contribution
import Schemata.Proofs.Derive.SchemaParts
import Schemata.Proofs.Derive.AccessScope
import Schemata.Proofs.Derive.AccessResolution
import Schemata.Proofs.Derive.Completeness
import Schemata.Proofs.Derive.Needs
import Schemata.Proofs.Derive.ImportHeader
import Schemata.Proofs.Derive.Assembly
import Schemata.Proofs.Derive.SelfReference
import Schemata.Proofs.Derive.Commented
import Schemata.Proofs.Derive.Transparency
import Schemata.Proofs.Text.Lines
import Schemata.Proofs.Schema.Folding
import Schemata.Proofs.Schema.Nesting
import Schemata.Proofs.Schema.PlainCode
import Schemata.Proofs.Schema.Leaves
import Schemata.Proofs.Emitted.Pattern
import Schemata.Proofs.Emitted.StaticLines
import Schemata.Proofs.Emitted.Blocks
import Schemata.Proofs.Emitted.ValuesOnly
import Schemata.Proofs.Session
import Schemata.Proofs.Number.Numeral
import Schemata.Proofs.Emitted.Rewriting
import Schemata.Proofs.Schema.OptionLiterals
import Schemata.Proofs.Schema.Renaming
import Schemata.Proofs.Emitted.Heads
import Schemata.Proofs.Emitted.Skeleton
import Schemata.Proofs.Emitted.NewNames
import Schemata.Proofs.Emitted.Renaming
import Schemata.Proofs.Emitted.RenamedModule
import Schemata.Proofs.Derive.Capture
import Schemata.Proofs.Derive.Lookups
import Schemata.Proofs.Derive.Independence
import Schemata.Proofs.Derive.Documentation
import Schemata.Proofs.Files.AtomicWrite
import Schemata.Proofs.Files.OutputPolicy
import Schemata.Proofs.Command.Effects
import Schemata.Proofs.Derive.PassThrough
import Schemata.Proofs.Derive.FlatMembers
import Schemata.Proofs.Schema.AttachedOptions
import Schemata.Proofs.Json.Quotation
import Schemata.Proofs.Doc.TagComments
import Schemata.Proofs.Schema.Arguments
import Schemata.Proofs.Schema.Lossless
import Schemata.Proofs.Derive.Heritage
import Schemata.Proofs.Text.NameParts
import Schemata.Proofs.Emitted.Literals
import Schemata.Proofs.Emitted.WholeNames
import Schemata.Proofs.Emitted.LiteralsKept
import Schemata.Proofs.Schema.NestedBlocks
import Schemata.Proofs.Emitted.EnumMembers
import Schemata.Proofs.Tree.TopmostErrors
import Schemata.Proofs.Schema.Indentation
import Schemata.Proofs.Derive.ValueNames
import Schemata.Proofs.Emitted.DeclaredValues
import Schemata.Proofs.Emitted.MemberNames
import Schemata.Proofs.Schema.Mentions
import Schemata.Proofs.Emitted.QualifiedNames
import Schemata.Proofs.Config.Loading
import Schemata.Proofs.Doc.TagValues
import Schemata.Proofs.Derive.Rendering
import Schemata.Proofs.Doc.LostTags
import Schemata.Proofs.Derive.LastDeclared

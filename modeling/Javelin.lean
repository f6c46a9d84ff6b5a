import Javelin.Bytecode.Assembly
import Javelin.Bytecode.Opcode
import Javelin.ClassFile.Basic
import Javelin.ClassFile.Builder
import Javelin.ClassFile.Descriptor
import Javelin.ClassFile.Dump
import Javelin.ClassFile.Pool
import Javelin.ClassFile.Reader
import Javelin.ClassFile.Signature
import Javelin.ClassFile.Summary
import Javelin.ClassFile.Writer
import Javelin.Command
import Javelin.Compile.Jobs
import Javelin.Compile.Run
import Javelin.Constant.Basic
import Javelin.Constant.Fold
import Javelin.Emit.Assignments
import Javelin.Emit.Basic
import Javelin.Emit.Classes
import Javelin.Emit.Conditions
import Javelin.Emit.Constructors
import Javelin.Emit.Convert
import Javelin.Emit.Expressions
import Javelin.Emit.Members
import Javelin.Emit.Statements
import Javelin.Emit.Switches
import Javelin.Flow.Analyze
import Javelin.Flow.Basic
import Javelin.Flow.Cells
import Javelin.Flow.Exceptions
import Javelin.Flow.Expressions
import Javelin.Flow.Frame
import Javelin.Flow.Inits
import Javelin.Flow.Statements
import Javelin.Library.Lang
import Javelin.Library.Platform
import Javelin.Library.SourceTree
import Javelin.Library.Throwables
import Javelin.Library.Util
import Javelin.Library.Values
import Javelin.Main
import Javelin.Number.Binary
import Javelin.Number.Decimal
import Javelin.Parse.Basic
import Javelin.Parse.Declarations
import Javelin.Parse.Expressions
import Javelin.Parse.Recovery
import Javelin.Parse.Statements
import Javelin.Parse.Types
import Javelin.Problem.Basic
import Javelin.Problem.Excerpt
import Javelin.Problem.Id
import Javelin.Proofs.Bytecode.LabelPatching
import Javelin.Proofs.Bytecode.ProtectedRanges
import Javelin.Proofs.Bytecode.SwitchTables
import Javelin.Proofs.ClassFile.BuilderRuns
import Javelin.Proofs.ClassFile.Building
import Javelin.Proofs.ClassFile.CodeAttributes
import Javelin.Proofs.ClassFile.Descriptors
import Javelin.Proofs.ClassFile.PoolOverrun
import Javelin.Proofs.ClassFile.Reading
import Javelin.Proofs.ClassFile.RoundTrip
import Javelin.Proofs.ClassFile.Signatures
import Javelin.Proofs.Compile.Jobs
import Javelin.Proofs.Compile.Limits
import Javelin.Proofs.Compile.Sharing
import Javelin.Proofs.Compile.Turns
import Javelin.Proofs.Compile.Work
import Javelin.Proofs.Constant.Arithmetic
import Javelin.Proofs.Constant.Folding
import Javelin.Proofs.Constant.Literals
import Javelin.Proofs.Constant.Numerals
import Javelin.Proofs.Emit.ConstantFields
import Javelin.Proofs.Emit.JumpCode
import Javelin.Proofs.Emit.JumpTargets
import Javelin.Proofs.Flow.Behavior
import Javelin.Proofs.Flow.Captures
import Javelin.Proofs.Flow.CheckedExceptions
import Javelin.Proofs.Flow.Coverage
import Javelin.Proofs.Flow.Frames
import Javelin.Proofs.Flow.Framing
import Javelin.Proofs.Flow.Loops
import Javelin.Proofs.Flow.Meaning
import Javelin.Proofs.Flow.Patterns
import Javelin.Proofs.Flow.Plain
import Javelin.Proofs.Flow.Semilattice
import Javelin.Proofs.Flow.Settling
import Javelin.Proofs.Flow.Soundness
import Javelin.Proofs.Flow.Switches
import Javelin.Proofs.Flow.Tracking
import Javelin.Proofs.Flow.Variables
import Javelin.Proofs.Flow.Walks
import Javelin.Proofs.Library.SourceTrees
import Javelin.Proofs.Parse.Ahead
import Javelin.Proofs.Parse.DeclarationRules
import Javelin.Proofs.Parse.DocComments
import Javelin.Proofs.Parse.Elements
import Javelin.Proofs.Parse.ExpressionPhrases
import Javelin.Proofs.Parse.ExpressionRules
import Javelin.Proofs.Parse.Grouping
import Javelin.Proofs.Parse.Lookaheads
import Javelin.Proofs.Parse.Moves
import Javelin.Proofs.Parse.Recovering
import Javelin.Proofs.Parse.RecoveryRules
import Javelin.Proofs.Parse.Spelling
import Javelin.Proofs.Parse.StatementRules
import Javelin.Proofs.Parse.States
import Javelin.Proofs.Parse.Totality
import Javelin.Proofs.Parse.TypePhrases
import Javelin.Proofs.Parse.TypeRules
import Javelin.Proofs.Parse.TypeTexts
import Javelin.Proofs.Problem.Showing
import Javelin.Proofs.Resolve.BinaryForms
import Javelin.Proofs.Resolve.Calculations
import Javelin.Proofs.Resolve.Plans
import Javelin.Proofs.Resolve.PrefixForms
import Javelin.Proofs.Resolve.Recorded
import Javelin.Proofs.Resolve.RecordedConstants
import Javelin.Proofs.Source.Positions
import Javelin.Proofs.Text.Characters
import Javelin.Proofs.Text.Classes
import Javelin.Proofs.Text.Cutting
import Javelin.Proofs.Token.BlockStripping
import Javelin.Proofs.Token.CommentTable
import Javelin.Proofs.Token.EscapeSequences
import Javelin.Proofs.Token.LiteralTokens
import Javelin.Proofs.Token.Lossless
import Javelin.Proofs.Token.NumberTokens
import Javelin.Proofs.Token.Scanning
import Javelin.Proofs.Token.Spelled
import Javelin.Proofs.Token.TextBlocks
import Javelin.Proofs.Token.UnicodeEscapes
import Javelin.Proofs.Types.Canonical
import Javelin.Proofs.Types.Erasure
import Javelin.Proofs.Types.Growing
import Javelin.Proofs.Types.Overloads
import Javelin.Proofs.Types.Questions
import Javelin.Proofs.Types.Reaching
import Javelin.Proofs.Types.Redirecting
import Javelin.Proofs.Types.Redirections
import Javelin.Proofs.Types.RereadTypes
import Javelin.Proofs.Types.Resolving
import Javelin.Proofs.Types.Substituting
import Javelin.Proofs.Types.Terms
import Javelin.Proofs.Types.TypeSignatures
import Javelin.Proofs.Workspace.SourcePaths
import Javelin.Resolve.Basic
import Javelin.Resolve.Declarations
import Javelin.Resolve.Invocations
import Javelin.Resolve.Names
import Javelin.Resolve.Operators
import Javelin.Resolve.Statements
import Javelin.Resolve.TypeNodes
import Javelin.Source.Escape
import Javelin.Source.Level
import Javelin.Source.Literal
import Javelin.Source.Name
import Javelin.Source.Position
import Javelin.Syntax.Document
import Javelin.Syntax.Info
import Javelin.Syntax.Node
import Javelin.Syntax.Operator
import Javelin.Syntax.Size
import Javelin.Syntax.Tree
import Javelin.Text.Basic
import Javelin.Text.JsonValue
import Javelin.Text.Letter
import Javelin.Text.Utf8
import Javelin.Token.Basic
import Javelin.Token.Lexer
import Javelin.Token.Scan
import Javelin.Types.Basic
import Javelin.Types.Compose
import Javelin.Types.Describe
import Javelin.Types.FromClass
import Javelin.Types.FromSource
import Javelin.Types.Members
import Javelin.Types.Overload
import Javelin.Types.Query
import Javelin.Types.Scopes
import Javelin.Types.Spelling
import Javelin.Types.Substitution
import Javelin.Types.Subtyping
import Javelin.Types.World
import Javelin.Workspace.Basic
import Javelin.Workspace.Diagnostics

import Brewin.Blank
import Brewin.Call
import Brewin.Command
import Brewin.CommandLine
import Brewin.Console
import Brewin.Decimal
import Brewin.Directory
import Brewin.DotEnv
import Brewin.Expression
import Brewin.Fault
import Brewin.Flags
import Brewin.Flow
import Brewin.FunctionTable
import Brewin.Listing
import Brewin.LogLine
import Brewin.LogRecord
import Brewin.Machine
import Brewin.Main
import Brewin.Numeral
import Brewin.Operation
import Brewin.Paint
import Brewin.Printable
import Brewin.Program
import Brewin.Proofs.LeadingKeyword
import Brewin.Proofs.Outline
import Brewin.Proofs.OutlineLayout
import Brewin.Quoted
import Brewin.Readers
import Brewin.Run
import Brewin.Scopes
import Brewin.Session
import Brewin.Settings
import Brewin.SourceLines
import Brewin.Stack
import Brewin.Statement
import Brewin.Surroundings
import Brewin.TokenClass
import Brewin.TokenScan
import Brewin.Value
import Brewin.Workspace
import Brewin.YamlFields
import Brewin.YamlNode
import Brewin.YamlPosition
import Brewin.YamlScalar
import Brewin.YamlText
import Brewin.YamlToken
import Brewin.Proofs.OutlineMatching
import Brewin.Proofs.OutlineProgram
import Brewin.Proofs.StructuredRun
import Brewin.Proofs.FrameShape
import Brewin.Proofs.RunSteps
import Brewin.Proofs.StructuredRefinement
import Brewin.Proofs.StructuredMain
import Brewin.Proofs.Moves
import Brewin.Proofs.NestingSites
import Brewin.Proofs.Nesting
import Brewin.Proofs.StructuralFaults
import Brewin.Proofs.Bindings
import Brewin.Proofs.CallSegment
import Brewin.Proofs.Spots
import Brewin.Proofs.TokenText
import Brewin.Proofs.Sharing
import Brewin.Proofs.SharedCells
import Brewin.Proofs.FlowBounds
import Brewin.Proofs.DefinitionLines
import Brewin.Proofs.CallStack
import Brewin.Proofs.FaultOrigins
import Brewin.Proofs.RunPrefix
import Brewin.Proofs.StoppedSteps
import Brewin.Proofs.StepLimit
import Brewin.Proofs.CellPairing
import Brewin.Proofs.PairedWorkspaces
import Brewin.Proofs.Lockstep
import Brewin.Proofs.Constructs
import Brewin.Proofs.BlockScoping
import Brewin.Proofs.ValueKinds
import Brewin.Proofs.LivingBlocks
import Brewin.Proofs.StoredKinds
import Brewin.Proofs.InsertedLine
import Brewin.Proofs.WidenedRun
import Brewin.Proofs.RunLog
import Brewin.Proofs.PrefixTree
import Brewin.Proofs.BracketPairs
import Brewin.Proofs.FlowPairs
import Brewin.Proofs.FlowResolved
import Brewin.Proofs.LineLayout
import Brewin.Proofs.UniqueLayout
import Brewin.Proofs.ParameterBinding
import Brewin.Proofs.StatementText
import Brewin.Proofs.FlooredDivision
import Brewin.Proofs.WrappedArithmetic
import Brewin.Proofs.ExpressionKinds
import Brewin.Proofs.TrimmedEnds
import Brewin.Proofs.BuiltinResults
import Brewin.Proofs.NumeralText
import Brewin.Proofs.DefinedFunctions
import Brewin.Proofs.DeliveredLines
import Brewin.Proofs.FaultReport
import Brewin.Proofs.LineEndings
import Brewin.Proofs.Decoration
import Brewin.Proofs.MarkedScan
import Brewin.Proofs.EncodedText
import Brewin.Proofs.GivenFlags
import Brewin.Proofs.LayeredSettings
import Brewin.Proofs.StreamedTokens
import Brewin.Proofs.TokenCategories

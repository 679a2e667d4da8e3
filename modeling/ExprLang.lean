import ExprLang.Builtin
import ExprLang.Builtin.Console
import ExprLang.Builtin.Runtime
import ExprLang.Datum.Pattern
import ExprLang.Datum.Reader
import ExprLang.Document.Reader
import ExprLang.Emission
import ExprLang.Expr.Node
import ExprLang.FileSystem
import ExprLang.Llvm.OfSsa
import ExprLang.Llvm.Printer
import ExprLang.Lowering.Compiler
import ExprLang.Main
import ExprLang.Session.Dialogue
import ExprLang.Session.History
import ExprLang.Settings.Decoding
import ExprLang.Settings.Loading
import ExprLang.Ssa.Builder
import ExprLang.Ssa.Machine
import ExprLang.Ssa.Parts
import ExprLang.Ssa.Verifier
import ExprLang.Ssa.Workspace
import ExprLang.Syntax.Parser
import ExprLang.TestCase
import ExprLang.Typed.Checker
import ExprLang.Yaml.Reader
import ExprLang.Proofs.Lowering.DefinitionsFirst
import ExprLang.Proofs.Ssa.Contents
import ExprLang.Proofs.Ssa.Safety
import ExprLang.Proofs.Syntax.Prefixes
import ExprLang.Proofs.Ssa.Ledger
import ExprLang.Proofs.Lowering.Idiom
import ExprLang.Proofs.Lowering.Origin
import ExprLang.Proofs.Ssa.Effects
import ExprLang.Proofs.Ssa.Stack
import ExprLang.Proofs.Ssa.Slots
import ExprLang.Proofs.Lowering.Arrays
import ExprLang.Proofs.Ssa.Order
import ExprLang.Proofs.Llvm.Rendering
import ExprLang.Proofs.Llvm.Writing
import ExprLang.Proofs.Llvm.Validity
import ExprLang.Proofs.Llvm.Translation
import ExprLang.Proofs.Llvm.Execution
import ExprLang.Proofs.Lowering.Scalars
import ExprLang.Proofs.Session.Definitions
import ExprLang.Proofs.Lowering.Success
import ExprLang.Proofs.Session.Evaluation
import ExprLang.Proofs.Token.Segmentation
import ExprLang.Proofs.Semantics.Programs
import ExprLang.Proofs.Ssa.Heading
import ExprLang.Proofs.Lowering.Callees
import ExprLang.Proofs.Ssa.Independence
import ExprLang.Proofs.Ssa.Store
import ExprLang.Proofs.Semantics.Termination
import ExprLang.Proofs.Llvm.Representation
import ExprLang.Proofs.Llvm.Simulation
import ExprLang.Proofs.Semantics.Limits
import ExprLang.Proofs.Ssa.Reservation
import ExprLang.Proofs.Ssa.SlotStores
import ExprLang.Proofs.Ssa.Precedence
import ExprLang.Proofs.Typing.Registration
import ExprLang.Proofs.Typing.Showing
import ExprLang.Proofs.Semantics.Truths
import ExprLang.Proofs.Datum.Matching
import ExprLang.Proofs.Document.TestCases
import ExprLang.Proofs.Syntax.TypeNames
import ExprLang.Proofs.CommandLine.Building
import ExprLang.Proofs.Token.Numerals
import ExprLang.Proofs.Settings.EntryNames
import ExprLang.Proofs.Lowering.Unwinding

import ContextCodegen.Arena.Basic
import ContextCodegen.Binary64.Basic
import ContextCodegen.Binary64.Decimal
import ContextCodegen.Binary64.Text
import ContextCodegen.Context
import ContextCodegen.Emission
import ContextCodegen.Emitter
import ContextCodegen.Env
import ContextCodegen.Expr.Basic
import ContextCodegen.Expr.Eval
import ContextCodegen.Expr.Kind
import ContextCodegen.Folded
import ContextCodegen.Generator.Basic
import ContextCodegen.Generator.Standard
import ContextCodegen.Interner
import ContextCodegen.Number
import ContextCodegen.Numeral
import ContextCodegen.Registry
import ContextCodegen.Target.Execute
import ContextCodegen.Target.Literal
import ContextCodegen.Target.Native
import ContextCodegen.Target.Term
import ContextCodegen.Target.Token
import ContextCodegen.Text
import ContextCodegen.Unit.Basic
import ContextCodegen.Unit.Options
import ContextCodegen.Unit.Write
import ContextCodegen.Value
import ContextCodegen.Proofs.DecimalText
import ContextCodegen.Proofs.Grammar
import ContextCodegen.Proofs.Lexing
import ContextCodegen.Proofs.FirstImpossible
import ContextCodegen.Proofs.Running
import ContextCodegen.Proofs.Forms
import ContextCodegen.Proofs.NativeForms
import ContextCodegen.Proofs.Storage
import ContextCodegen.Proofs.Specialization
import ContextCodegen.Proofs.RoundTrip
import ContextCodegen.Proofs.NativeLong
import ContextCodegen.Proofs.Outcomes
import ContextCodegen.Proofs.Layout
import ContextCodegen.Proofs.Locations
import ContextCodegen.Proofs.Lockstep
import ContextCodegen.Proofs.PrintableText
import ContextCodegen.Proofs.UnitWriting
import ContextCodegen.Proofs.UnitText
import ContextCodegen.Proofs.DeclaredContexts
import ContextCodegen.Proofs.NativeDouble
import ContextCodegen.Proofs.ArenaRuns
import ContextCodegen.Proofs.BoundedSink
import ContextCodegen.Proofs.ConstantRecords
import ContextCodegen.Proofs.LineLayout
import ContextCodegen.Proofs.MisboundGenerators
import ContextCodegen.Proofs.RuntimeOperands
import ContextCodegen.Proofs.PartialRegistries
import ContextCodegen.Proofs.Copies
import ContextCodegen.Proofs.Effects
import ContextCodegen.Proofs.NumeralLanguage
import ContextCodegen.Proofs.LiteralTokens
import ContextCodegen.Proofs.LooseEquality
import ContextCodegen.Proofs.WrappingConversion
import ContextCodegen.Proofs.UnitValidation
import ContextCodegen.Proofs.Lexemes
import ContextCodegen.Proofs.Tokenization
import ContextCodegen.Proofs.LexicalSafety
import ContextCodegen.Proofs.FirstOccurrences
import ContextCodegen.Proofs.Comparison
import ContextCodegen.Proofs.DirectEmission

import LambdaCalculus.Command.FileTree
import LambdaCalculus.Main
import LambdaCalculus.Reduction.Recursive
import LambdaCalculus.Term.Shift
import LambdaCalculus.Token.Cursor
import LambdaCalculus.Proofs.Command.ArgumentFile
import LambdaCalculus.Proofs.Command.Idempotence
import LambdaCalculus.Proofs.Parser.AlphaEquivalence
import LambdaCalculus.Proofs.Parser.FirstError
import LambdaCalculus.Proofs.Parser.Spans
import LambdaCalculus.Proofs.Reduction.Agreement
import LambdaCalculus.Proofs.Reduction.Budgets
import LambdaCalculus.Proofs.Reduction.Contraction
import LambdaCalculus.Proofs.Reduction.Labels
import LambdaCalculus.Proofs.Reduction.Observations
import LambdaCalculus.Proofs.Typing.Canonical
import LambdaCalculus.Proofs.Typing.Preservation
import LambdaCalculus.Proofs.Typing.StrongNormalization
import LambdaCalculus.Proofs.Reduction.ContractionLaws
import LambdaCalculus.Proofs.Reduction.Shifting
import LambdaCalculus.Proofs.Typing.FirstFault
import LambdaCalculus.Proofs.Source.Excerpts
import LambdaCalculus.Proofs.Term.Unambiguous
import LambdaCalculus.Proofs.Typing.NamedParts
import LambdaCalculus.Proofs.Diagnostic.Arguments
import LambdaCalculus.Proofs.Command.Grouping
import LambdaCalculus.Proofs.Command.LineEndings
import LambdaCalculus.Proofs.Parser.Headway
import LambdaCalculus.Proofs.Reduction.WordRuns
import LambdaCalculus.Proofs.Command.FileTree
import LambdaCalculus.Proofs.Typing.Checker
import LambdaCalculus.Proofs.Types.Tables
import LambdaCalculus.Proofs.Term.Writer

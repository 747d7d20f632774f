import FilterLang.Composition.Argument
import FilterLang.Main
import FilterLang.Proofs.Parser.Completeness
import FilterLang.Proofs.Parser.Soundness
import FilterLang.Proofs.Value.Laziness
import FilterLang.Proofs.Value.ReadBack
import FilterLang.Proofs.Composition.Normalization
import FilterLang.Proofs.Composition.Isolation
import FilterLang.Proofs.Composition.Restart
import FilterLang.Proofs.Composition.Skipping
import FilterLang.Proofs.Composition.Substitution
import FilterLang.Proofs.Expr.Noninterference
import FilterLang.Proofs.Value.Hashing
import FilterLang.Proofs.Value.Ordering
import FilterLang.Proofs.Value.Instances
import FilterLang.Proofs.Value.Invocation
import FilterLang.Proofs.Expr.Invariant
import FilterLang.Proofs.Json.Reading
import FilterLang.Proofs.Token.Coverage
import FilterLang.Proofs.CommandLine.Batch
import FilterLang.Proofs.Value.Insertion
import FilterLang.Proofs.Value.Binding
import FilterLang.Proofs.Value.Conversion
import FilterLang.Proofs.Value.Shifting
import FilterLang.Proofs.Calendar.Durations
import FilterLang.Proofs.Calendar.YearDays
import FilterLang.Proofs.Value.YearDays
import FilterLang.Proofs.Value.Durations
import FilterLang.Proofs.Value.Moving
import FilterLang.Proofs.Token.Failure
import FilterLang.Proofs.Token.Quotation
import FilterLang.Proofs.Expr.Chain
import FilterLang.Proofs.Token.Spacing
import FilterLang.Proofs.Parser.Framing
import FilterLang.Proofs.Parser.Termination
import FilterLang.Proofs.Composition.Assignment
import FilterLang.Proofs.Composition.Inlining
import FilterLang.Proofs.Composition.Grouping
import FilterLang.Proofs.Composition.SelfReference
import FilterLang.Proofs.Composition.Arguments
import FilterLang.Proofs.Expr.Application
import FilterLang.Proofs.Value.Mappings
import FilterLang.Proofs.Value.Sequences
import FilterLang.Proofs.Value.Splitting
import FilterLang.Proofs.Value.Extremes
import FilterLang.Proofs.Value.NativeTexts
import FilterLang.Proofs.Expr.Display
import FilterLang.Proofs.Parser.Comparisons

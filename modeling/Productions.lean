import Productions.Command.Arguments
import Productions.Command.Folder
import Productions.Compiled.Basic
import Productions.Compiled.Json
import Productions.Compiled.Listing
import Productions.Compiled.Source
import Productions.Diagnostic.Basic
import Productions.Diagnostic.Render
import Productions.Expr.Basic
import Productions.Grammar.Basic
import Productions.GrammarFile.Reader
import Productions.GrammarFile.Record
import Productions.GrammarFile.Shape
import Productions.Graph.Basic
import Productions.Json.Reader
import Productions.Json.Text
import Productions.Json.Value
import Productions.Main
import Productions.Normal.Basic
import Productions.Normal.Inlining
import Productions.Normal.Lexicon
import Productions.Normal.Lowering
import Productions.Normal.OfGrammar
import Productions.Ordered.Map
import Productions.Ordered.Set
import Productions.Pattern.Basic
import Productions.Pattern.Escape
import Productions.Pattern.Fault
import Productions.Pattern.Form
import Productions.Pattern.Reader
import Productions.Pattern.Tree
import Productions.Pipeline
import Productions.Precedence.Orderings
import Productions.Precedence.Resolution
import Productions.Precedence.Table
import Productions.Proofs.Ambiguity.Declared
import Productions.Proofs.Ambiguity.Forms
import Productions.Proofs.Ambiguity.Tables
import Productions.Proofs.Ambiguity.Unfolding
import Productions.Proofs.Canonical
import Productions.Proofs.Consistency
import Productions.Proofs.Consumption
import Productions.Proofs.Derivation.Letters
import Productions.Proofs.Derivation.Numbered
import Productions.Proofs.Derivation.Reading
import Productions.Proofs.Derivation.Rules
import Productions.Proofs.Derivation.Units
import Productions.Proofs.Desugaring.Compilation
import Productions.Proofs.Desugaring.Inlining
import Productions.Proofs.Desugaring.Rules
import Productions.Proofs.Desugaring.Tables
import Productions.Proofs.Distinctness
import Productions.Proofs.EmptyDerivations
import Productions.Proofs.Fields.Counts
import Productions.Proofs.Fields.Nodes
import Productions.Proofs.FirstSets
import Productions.Proofs.Fixpoint
import Productions.Proofs.Forests
import Productions.Proofs.GrammarFile.Reading
import Productions.Proofs.GrammarFile.Records
import Productions.Proofs.GrammarFile.Shapes
import Productions.Proofs.Graph.Components
import Productions.Proofs.Graph.Cycle
import Productions.Proofs.Graph.Order
import Productions.Proofs.Inlining.Acyclic
import Productions.Proofs.Inlining.Bodies
import Productions.Proofs.Inlining.Cycles
import Productions.Proofs.Inlining.Invariants
import Productions.Proofs.Inlining.PlainSubstitution
import Productions.Proofs.Inlining.Run
import Productions.Proofs.Inlining.Substitution
import Productions.Proofs.Inlining.Visible
import Productions.Proofs.Interning
import Productions.Proofs.Json.Reading
import Productions.Proofs.Json.Scalars
import Productions.Proofs.Json.Syntax
import Productions.Proofs.LeftmostExpansion
import Productions.Proofs.Levels
import Productions.Proofs.Lowering.Canonical
import Productions.Proofs.Lowering.Closed
import Productions.Proofs.Lowering.Entries
import Productions.Proofs.Lowering.Language
import Productions.Proofs.Lowering.Parts
import Productions.Proofs.Lowering.Reduced
import Productions.Proofs.Lowering.References
import Productions.Proofs.Lowering.Reports
import Productions.Proofs.Lowering.Run
import Productions.Proofs.Lowering.Shape
import Productions.Proofs.Lowering.Sources
import Productions.Proofs.Lowering.Tokens
import Productions.Proofs.Normal.Agreement
import Productions.Proofs.Normal.Bounds
import Productions.Proofs.Normal.Preservation
import Productions.Proofs.Normal.Structure
import Productions.Proofs.Nullability
import Productions.Proofs.Ordered
import Productions.Proofs.Precedence.Contradictions
import Productions.Proofs.Precedence.Grouping
import Productions.Proofs.Precedence.OperatorRules
import Productions.Proofs.Precedence.Orderings
import Productions.Proofs.Precedence.Placement
import Productions.Proofs.Precedence.Resolution
import Productions.Proofs.Precedence.Ties
import Productions.Proofs.Reachability
import Productions.Proofs.Recompilation.Arrangement
import Productions.Proofs.Recompilation.Completion
import Productions.Proofs.Recompilation.Converse
import Productions.Proofs.Recompilation.Declared
import Productions.Proofs.Recompilation.Exactness
import Productions.Proofs.Recompilation.Reading
import Productions.Proofs.Recompilation.Reentry
import Productions.Proofs.Recompilation.Relowering
import Productions.Proofs.Recompilation.Replay
import Productions.Proofs.Recompilation.Restorable
import Productions.Proofs.Recompilation.RoundTrip
import Productions.Proofs.Recompilation.Written
import Productions.Proofs.References
import Productions.Proofs.Renumbering.Expr
import Productions.Proofs.Renumbering.NormalForm
import Productions.Proofs.Reordering.Compilation
import Productions.Proofs.Reordering.Inlining
import Productions.Proofs.Reordering.Lowering
import Productions.Proofs.Reordering.NormalForm
import Productions.Proofs.Reordering.Resolution
import Productions.Proofs.Reordering.Tables
import Productions.Proofs.Repeats
import Productions.Proofs.Runs
import Productions.Proofs.Stages
import Productions.Proofs.Subtrees
import Productions.Proofs.Symbols.CanonicalKinds
import Productions.Proofs.Symbols.CycleReports
import Productions.Proofs.Symbols.Kinds
import Productions.Proofs.Symbols.LexicalMaterial
import Productions.Proofs.Symbols.Shapes
import Productions.Proofs.Symbols.Table
import Productions.Proofs.Symbols.UnitCycles
import Productions.Proofs.TokenContents
import Productions.Proofs.UnnecessaryConflicts
import Productions.Proofs.Unreachable
import Productions.Proofs.Validity
import Productions.Proofs.Wire.Codec
import Productions.Proofs.Wire.Format
import Productions.Proofs.Wire.RoundTrip
import Productions.Proofs.Wire.Truncation
import Productions.Rule.Nullable
import Productions.Symbols.Basic
import Productions.Symbols.Resolution
import Productions.Text.Literal
import Productions.Unicode.Age
import Productions.Unicode.Binary
import Productions.Unicode.Category
import Productions.Unicode.CodeSet
import Productions.Unicode.Property
import Productions.Unicode.Script
import Productions.Unicode.Segmentation
import Productions.Validation.Checks
import Productions.Validation.Conflicts
import Productions.Wire.Codec
import Productions.Wire.Compiled
import Productions.Wire.Grammar

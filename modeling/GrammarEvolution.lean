import GrammarEvolution.Engine.Run
import GrammarEvolution.Grammar.Builder
import GrammarEvolution.Grammar.Derivation
import GrammarEvolution.Grammar.Described
import GrammarEvolution.Grammar.Written
import GrammarEvolution.Random.WordStream
import GrammarEvolution.Proofs.Rose.Address
import GrammarEvolution.Proofs.Tree.Outline
import GrammarEvolution.Proofs.Tree.Layout
import GrammarEvolution.Proofs.Tree.Linking
import GrammarEvolution.Proofs.Tree.Splice
import GrammarEvolution.Proofs.Tree.Walk
import GrammarEvolution.Proofs.Tree.Copying
import GrammarEvolution.Proofs.Tree.Reached
import GrammarEvolution.Proofs.Tree.Substitution
import GrammarEvolution.Proofs.Grammar.Derivation
import GrammarEvolution.Proofs.Grammar.Built
import GrammarEvolution.Proofs.Grammar.Declaring
import GrammarEvolution.Proofs.Grammar.Depth
import GrammarEvolution.Proofs.Grammar.Resolution
import GrammarEvolution.Proofs.Grammar.Achieved
import GrammarEvolution.Proofs.Grammar.Productive
import GrammarEvolution.Proofs.Sampling
import GrammarEvolution.Proofs.Growth
import GrammarEvolution.Proofs.Script
import GrammarEvolution.Proofs.Growth.InPlace
import GrammarEvolution.Proofs.Growth.Reach
import GrammarEvolution.Proofs.Operator.Replacement
import GrammarEvolution.Proofs.Operator.Crossover
import GrammarEvolution.Proofs.Operator.Mutation
import GrammarEvolution.Proofs.Engine.Course
import GrammarEvolution.Proofs.Ranking
import GrammarEvolution.Proofs.Engine.Invariant
import GrammarEvolution.Proofs.Grammar.Nodewise
import GrammarEvolution.Proofs.Grammar.Expansion
import GrammarEvolution.Proofs.Tree.Alike
import GrammarEvolution.Proofs.Operator.Alike
import GrammarEvolution.Proofs.Operator.Offspring
import GrammarEvolution.Proofs.Grammar.Record
import GrammarEvolution.Proofs.Grammar.Evaluation
import GrammarEvolution.Proofs.Engine.Limit
import GrammarEvolution.Proofs.Engine.Breeding
import GrammarEvolution.Proofs.Engine.History
import GrammarEvolution.Proofs.Grammar.DepthBound
import GrammarEvolution.Proofs.Ranking.Order
import GrammarEvolution.Proofs.Ranking.Stability
import GrammarEvolution.Proofs.Engine.Optimum
import GrammarEvolution.Proofs.Engine.Wheel
import GrammarEvolution.Proofs.Grammar.Compositionality
import GrammarEvolution.Proofs.Tree.Paths
import GrammarEvolution.Proofs.Tree.Editing
import GrammarEvolution.Proofs.Grammar.Refusal
import GrammarEvolution.Proofs.Grammar.Pieces
import GrammarEvolution.Proofs.Operator.Legality
import GrammarEvolution.Proofs.Tree.Numbered
import GrammarEvolution.Proofs.Drawing

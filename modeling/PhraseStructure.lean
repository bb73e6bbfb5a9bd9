import PhraseStructure.Main
import PhraseStructure.Grammar.Reachable
import PhraseStructure.Proofs.Prediction
import PhraseStructure.Proofs.Nullable
import PhraseStructure.Proofs.Chart.Closing
import PhraseStructure.Proofs.Chart.Exact
import PhraseStructure.Proofs.Tree.WellBuilt
import PhraseStructure.Proofs.Forest.Enumeration
import PhraseStructure.Proofs.Forest.OfChart
import PhraseStructure.Proofs.Tree.Derivation
import PhraseStructure.Proofs.Parse
import PhraseStructure.Proofs.Tree.Acyclic
import PhraseStructure.Proofs.Dependence
import PhraseStructure.Proofs.Source.Format
import PhraseStructure.Proofs.Source.Read
import PhraseStructure.Proofs.Source.Print
import PhraseStructure.Proofs.Command
import PhraseStructure.Proofs.Chart.Moment
import PhraseStructure.Proofs.Chart.Stepwise
import PhraseStructure.Proofs.Forest.Search
import PhraseStructure.Proofs.Forest.LookAhead
import PhraseStructure.Proofs.Forest.Order
import PhraseStructure.Proofs.Tree.Chunk
import PhraseStructure.Proofs.Tree.Subtree
import PhraseStructure.Proofs.Tree.Innermost
import PhraseStructure.Proofs.Tree.Empty
import PhraseStructure.Proofs.Occurrence
import PhraseStructure.Proofs.Place
import PhraseStructure.Proofs.Table
import PhraseStructure.Proofs.Construction
import PhraseStructure.Proofs.Source.Locality
import PhraseStructure.Proofs.Sentence
import PhraseStructure.Proofs.Tree.Display
import PhraseStructure.Proofs.Source.Spacing
import PhraseStructure.Proofs.Chart.History
import PhraseStructure.Proofs.Forest.Gathering

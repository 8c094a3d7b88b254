import TermEmbedding.Hexadecimal
import TermEmbedding.Main
import TermEmbedding.Proofs.Expression.Progress
import TermEmbedding.Proofs.Linear.Regression
import TermEmbedding.Proofs.Model.Additions
import TermEmbedding.Proofs.Model.Draws
import TermEmbedding.Proofs.Model.Reordering
import TermEmbedding.Proofs.Model.Tightening
import TermEmbedding.Proofs.Ontology.Names
import TermEmbedding.Proofs.Ontology.Queries
import TermEmbedding.Proofs.Session.Atomic
import TermEmbedding.Proofs.Session.Folding
import TermEmbedding.Proofs.Session.Layout
import TermEmbedding.Proofs.Session.Names
import TermEmbedding.Proofs.Session.Nesting
import TermEmbedding.Proofs.Session.Repetition
import TermEmbedding.Proofs.Session.Restored
import TermEmbedding.Proofs.Session.Unexplained
import TermEmbedding.Proofs.Snapshot.Unreported

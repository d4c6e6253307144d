import FieldQuery.CommandLine.Run
import FieldQuery.Main
import FieldQuery.Proofs.Acting
import FieldQuery.Proofs.Coherence
import FieldQuery.Proofs.Cutting
import FieldQuery.Proofs.Expansion
import FieldQuery.Proofs.Extension
import FieldQuery.Proofs.Grouping
import FieldQuery.Proofs.Hiding
import FieldQuery.Proofs.Printing
import FieldQuery.Proofs.Quoting
import FieldQuery.Proofs.Suggestion
import FieldQuery.Proofs.Words
import FieldQuery.Shell.Editing
import FieldQuery.Shell.Highlight
import FieldQuery.Shell.History
import FieldQuery.Proofs.Collapsing
import FieldQuery.Proofs.Typed
import FieldQuery.Proofs.Soundness
import FieldQuery.Proofs.Indexing
import FieldQuery.Proofs.Joining
import FieldQuery.Proofs.Literals
import FieldQuery.Proofs.Composing
import FieldQuery.Proofs.Naming
import FieldQuery.Proofs.Flattening
import FieldQuery.Proofs.Following
import FieldQuery.Proofs.Tiling
import FieldQuery.Proofs.Spacing
import FieldQuery.Proofs.OpenQuotes
import FieldQuery.Proofs.Highlighting
import FieldQuery.Proofs.OpenWords
import FieldQuery.Proofs.Comparators
import FieldQuery.Proofs.Modes
import FieldQuery.Proofs.Asking
import FieldQuery.Proofs.Caching
import FieldQuery.Proofs.Hinting
import FieldQuery.Proofs.Coloring
import FieldQuery.Proofs.Integers
import FieldQuery.Proofs.Kinds
import FieldQuery.Proofs.Verdicts

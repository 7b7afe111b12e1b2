import SexpReader.Cursor.Session
import SexpReader.Entry
import SexpReader.Main
import SexpReader.Proofs.Agreement
import SexpReader.Proofs.AtomText
import SexpReader.Proofs.Batches
import SexpReader.Proofs.Boundary
import SexpReader.Proofs.Classification
import SexpReader.Proofs.CodePoints
import SexpReader.Proofs.Comparison
import SexpReader.Proofs.Decoding
import SexpReader.Proofs.Descent
import SexpReader.Proofs.Encoding
import SexpReader.Proofs.Equality
import SexpReader.Proofs.ExactValue
import SexpReader.Proofs.Extension
import SexpReader.Proofs.Extent
import SexpReader.Proofs.Folding
import SexpReader.Proofs.Forms
import SexpReader.Proofs.FromEnd
import SexpReader.Proofs.Grammar
import SexpReader.Proofs.Layout
import SexpReader.Proofs.Legible
import SexpReader.Proofs.Messages
import SexpReader.Proofs.Outline
import SexpReader.Proofs.Pattern
import SexpReader.Proofs.Place
import SexpReader.Proofs.Postorder
import SexpReader.Proofs.Printing
import SexpReader.Proofs.Progress
import SexpReader.Proofs.Relocation
import SexpReader.Proofs.Rendering
import SexpReader.Proofs.Replacement
import SexpReader.Proofs.Sessions
import SexpReader.Proofs.Trace
import SexpReader.Proofs.Truncation
import SexpReader.Proofs.TypedReads
import SexpReader.Proofs.Widening
import SexpReader.Tree.Convert

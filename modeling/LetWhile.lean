import LetWhile.Main
import LetWhile.Sample
import LetWhile.Proofs.Munch
import LetWhile.Proofs.Double
import LetWhile.Proofs.Grammar.Program
import LetWhile.Proofs.Grammar.Order
import LetWhile.Proofs.Grammar.Visible
import LetWhile.Proofs.Grammar.Recovery
import LetWhile.Proofs.Code.Correctness
import LetWhile.Proofs.Code.WellFormed
import LetWhile.Proofs.Run.Sequence
import LetWhile.Proofs.Run.Frames
import LetWhile.Proofs.Run.Visible
import LetWhile.Proofs.Decimal
import LetWhile.Proofs.RoundTrip
import LetWhile.Proofs.Run.Bindings
import LetWhile.Proofs.Whole
import LetWhile.Proofs.Run.Kept
import LetWhile.Proofs.Session.Idle
import LetWhile.Proofs.History
import LetWhile.Proofs.Typing
import LetWhile.Proofs.Spacing
import LetWhile.Proofs.Grammar.Halting
import LetWhile.Proofs.Scanner.Halting
import LetWhile.Proofs.Evaluation
import LetWhile.Proofs.Run.Limited
import LetWhile.Proofs.Run.Loop
import LetWhile.Proofs.Delivery
import LetWhile.Proofs.Tables
import LetWhile.Proofs.Double.Arithmetic
import LetWhile.Proofs.Decimal.Grid
import LetWhile.Proofs.Decimal.Places
import LetWhile.Proofs.Code.Print
import LetWhile.Proofs.Counter

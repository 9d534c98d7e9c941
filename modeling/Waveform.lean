import Waveform.Instrument
import Waveform.Main
import Waveform.Proofs.Capture.Answers
import Waveform.Proofs.Capture.Closed
import Waveform.Proofs.Capture.Preserving
import Waveform.Proofs.Capture.Purity
import Waveform.Proofs.Capture.Worklist
import Waveform.Proofs.Evaluation.CallLimit
import Waveform.Proofs.Evaluation.FrameNames
import Waveform.Proofs.Evaluation.Iterations
import Waveform.Proofs.Evaluation.Repeating
import Waveform.Proofs.Inlining.Branching
import Waveform.Proofs.Inlining.Draws
import Waveform.Proofs.Inlining.Known
import Waveform.Proofs.Inlining.Limits
import Waveform.Proofs.Inlining.Updates
import Waveform.Proofs.Number.Written
import Waveform.Proofs.Prelude.Mixing
import Waveform.Proofs.Renaming.Target
import Waveform.Proofs.Scopes.FreshNames
import Waveform.Proofs.Scopes.Lookups
import Waveform.Proofs.Simplification.Coercion
import Waveform.Proofs.Simplification.Discarding
import Waveform.Proofs.Simplification.Folding
import Waveform.Proofs.Simplification.Settling
import Waveform.Proofs.Source.RoundTrip
import Waveform.Proofs.Symbolic.Arithmetic
import Waveform.Proofs.Symbolic.Deferral
import Waveform.Proofs.Symbolic.HigherOrder
import Waveform.Proofs.Symbolic.Identity
import Waveform.Proofs.Symbolic.Imperative
import Waveform.Proofs.Symbolic.ListSum
import Waveform.Proofs.Symbolic.Selection
import Waveform.Proofs.Symbolic.Summation

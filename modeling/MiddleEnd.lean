import MiddleEnd.Main
import MiddleEnd.Progress.View
import MiddleEnd.Proofs.Folding.Division
import MiddleEnd.Proofs.Folding.Numbering
import MiddleEnd.Proofs.Ir.NormalForm
import MiddleEnd.Proofs.Lowering.Safety
import MiddleEnd.Proofs.Lowering.Storage
import MiddleEnd.Proofs.Pipeline.Folding
import MiddleEnd.Proofs.Pipeline.Sessions
import MiddleEnd.Proofs.Pipeline.Spans
import MiddleEnd.Proofs.Pipeline.Verdict
import MiddleEnd.Proofs.Trace.Ring
import MiddleEnd.Syntax.Numbering
import MiddleEnd.Proofs.Ir.Redundancy
import MiddleEnd.Proofs.Ir.Requests
import MiddleEnd.Proofs.Scoping.Histories

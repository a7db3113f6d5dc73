import LedMatrix.Board
import LedMatrix.Panel
import LedMatrix.Proofs.Pending
import LedMatrix.Proofs.LitRow
import LedMatrix.Proofs.Interleaving
import LedMatrix.Proofs.ScanOrder
import LedMatrix.Proofs.RowLines
import LedMatrix.Proofs.CommandOrder
import LedMatrix.Proofs.ClockPulses
import LedMatrix.Proofs.Wirings
import LedMatrix.Proofs.RowIsolation
import LedMatrix.Proofs.Refusals
import LedMatrix.Proofs.Leftovers
import LedMatrix.Proofs.SelfHealing
import LedMatrix.Proofs.Drawing
import LedMatrix.Proofs.Starting
import LedMatrix.Proofs.Dues
import LedMatrix.Proofs.Latency
import LedMatrix.Proofs.Counts
import LedMatrix.Proofs.EventBudget
import LedMatrix.Proofs.IdleScans
import LedMatrix.Proofs.Luminance
import LedMatrix.Proofs.Brightness
import LedMatrix.Proofs.Painting
import LedMatrix.Proofs.RowSwitching
import LedMatrix.Proofs.RowViews

import Rhythm.Export
import Rhythm.Report
import Rhythm.Proofs.Grader.Perfect
import Rhythm.Proofs.Level.Splitting
import Rhythm.Proofs.Score.Acceptance
import Rhythm.Proofs.Score.Clicks
import Rhythm.Proofs.Score.Dot
import Rhythm.Proofs.Score.Lines
import Rhythm.Proofs.Score.RoundTrip
import Rhythm.Proofs.Score.Slot
import Rhythm.Proofs.Timing.Lasting

import PbesLab.Main
import PbesLab.Text.Decode
import PbesLab.Proofs.ClassTable.RoundTrip
import PbesLab.Proofs.EqSystem.Closedness
import PbesLab.Proofs.EqSystem.Echo
import PbesLab.Proofs.EqSystem.Outcome
import PbesLab.Proofs.EqSystem.Scoping
import PbesLab.Proofs.EqSystem.Typing
import PbesLab.Proofs.Formula.Lens
import PbesLab.Proofs.Formula.Occurrences
import PbesLab.Proofs.Sampling.Finiteness
import PbesLab.Proofs.Sampling.Leaves
import PbesLab.Proofs.Sampling.System
import PbesLab.Proofs.Shrink.Frame
import PbesLab.Proofs.Shrink.Minimum
import PbesLab.Proofs.Shrink.Resumption
import PbesLab.Proofs.Shrink.SingleLeaf
import PbesLab.Proofs.Shrink.Steps
import PbesLab.Proofs.Shrink.Termination
import PbesLab.Proofs.Shrink.WellFormed
import PbesLab.Proofs.Trial.Cleanup
import PbesLab.Proofs.Trial.Counterexample
import PbesLab.Proofs.Trial.Courses
import PbesLab.Proofs.Trial.Evidence
import PbesLab.Proofs.Trial.Leftovers
import PbesLab.Proofs.Trial.Verdict
import PbesLab.Proofs.Trial.Upkeep
import PbesLab.Proofs.Disk.Extension
import PbesLab.Proofs.Trial.Confinement
import PbesLab.Proofs.Trial.InputSafety
import PbesLab.Proofs.ClassTable.Conversion
import PbesLab.Proofs.Grammar.Semantics
import PbesLab.Proofs.ClassTable.Outcome

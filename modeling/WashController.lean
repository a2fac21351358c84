import WashController.Main
import WashController.Proofs.Outcome
import WashController.Proofs.BoundedMap
import WashController.Proofs.SourceLine
import WashController.Proofs.Survey
import WashController.Proofs.Addresses
import WashController.Proofs.Effects
import WashController.Proofs.Rules
import WashController.Proofs.Path
import WashController.Proofs.RunLoop
import WashController.Proofs.Trail
import WashController.Proofs.Simulation
import WashController.Proofs.Refinement
import WashController.Proofs.Atomicity
import WashController.Proofs.Bounds
import WashController.Proofs.Conduct
import WashController.Proofs.FailingOutput
import WashController.Proofs.Limits
import WashController.Proofs.Concatenation
import WashController.Proofs.Relocation
import WashController.Proofs.Parts
import WashController.Proofs.Resumption
import WashController.Proofs.Decimal
import WashController.Proofs.Spelling
import WashController.Proofs.Reassembly
import WashController.Proofs.Entries
import WashController.Proofs.Legibility
import WashController.Proofs.Capacities
import WashController.Proofs.Exhaustion
import WashController.Proofs.Reduction
import WashController.Proofs.Balance
import WashController.Proofs.Locality
import WashController.Proofs.Diagnostics
import WashController.Proofs.Layout
import WashController.Proofs.Termination
import WashController.Proofs.Likeness
import WashController.Proofs.Recurrence
import WashController.Proofs.Interference
import WashController.Proofs.Rest
import WashController.Proofs.Causes
import WashController.Proofs.Frame
import WashController.Proofs.Waits
import WashController.Proofs.Command
import WashController.Proofs.Comparisons
import WashController.Proofs.Literals
import WashController.Proofs.Names
import WashController.Proofs.LabelOrder
import WashController.Proofs.Transcript
import WashController.Proofs.Disclosure
import WashController.Proofs.Admission
import WashController.Proofs.Cells

import LateConst.Command
import LateConst.Main
import LateConst.Proofs.Blame
import LateConst.Proofs.Call
import LateConst.Proofs.Cap
import LateConst.Proofs.CleanRun
import LateConst.Proofs.Destructuring
import LateConst.Proofs.Duplicate
import LateConst.Proofs.Equality
import LateConst.Proofs.Excerpt
import LateConst.Proofs.Findings
import LateConst.Proofs.Handling
import LateConst.Proofs.Hoisting
import LateConst.Proofs.Indexing
import LateConst.Proofs.Initialization
import LateConst.Proofs.Initializer
import LateConst.Proofs.Isolation
import LateConst.Proofs.Narration
import LateConst.Proofs.Nesting
import LateConst.Proofs.Operator.Strain
import LateConst.Proofs.Printing.RoundTrip
import LateConst.Proofs.Reading.Advice
import LateConst.Proofs.RecordHistory.Search
import LateConst.Proofs.RoundRobin.Fairness
import LateConst.Proofs.Scan.Account
import LateConst.Proofs.Scan.Seam
import LateConst.Proofs.Unpaused
import LateConst.Proofs.Verdict
import LateConst.Proofs.WholeArray
import LateConst.Proofs.WriteOnce
import LateConst.Store.Description

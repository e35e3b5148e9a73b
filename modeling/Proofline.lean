import Proofline.Session.Step
import Proofline.Worker
import Proofline.Diagnostic.Network
import Proofline.Proofs.PublicationOrder
import Proofline.Proofs.SettledVersions
import Proofline.Proofs.Resumption
import Proofline.Proofs.Completion
import Proofline.Proofs.Repetition
import Proofline.Proofs.Display
import Proofline.Proofs.Survival
import Proofline.Proofs.RecordedResults
import Proofline.Proofs.VerifierCalls
import Proofline.Proofs.Reloading
import Proofline.Proofs.AwaitedVersions
import Proofline.Proofs.Readiness
import Proofline.Proofs.Superseding
import Proofline.Proofs.CounterexampleAnswers
import Proofline.Proofs.Forwarding
import Proofline.Proofs.StateNames
import Proofline.Proofs.Bookkeeping
import Proofline.Proofs.ProjectLookup
import Proofline.Proofs.UnitGate
import Proofline.Proofs.UnitNodes
import Proofline.Proofs.ExtractedItems
import Proofline.Proofs.Coordinates
import Proofline.Proofs.Expansion
import Proofline.Proofs.Snippets
import Proofline.Proofs.RecordedProgress
import Proofline.Proofs.ContentHash
import Proofline.Proofs.UnitSearch
import Proofline.Proofs.ConsoleLines
import Proofline.Proofs.Assignments
import Proofline.Proofs.JobOrder
import Proofline.Proofs.Qualifiers

import RuleTable.Builder
import RuleTable.Host.Folder
import RuleTable.Main
import RuleTable.Proofs.Branching
import RuleTable.Proofs.Circles
import RuleTable.Proofs.Compositions
import RuleTable.Proofs.Copies
import RuleTable.Proofs.Crashes
import RuleTable.Proofs.Diagnoses
import RuleTable.Proofs.Forms
import RuleTable.Proofs.Generation
import RuleTable.Proofs.Histories
import RuleTable.Proofs.Independence
import RuleTable.Proofs.Keys
import RuleTable.Proofs.Merging
import RuleTable.Proofs.Motions
import RuleTable.Proofs.Napkins
import RuleTable.Proofs.OrbitAnswers
import RuleTable.Proofs.Overmatching
import RuleTable.Proofs.Permuting
import RuleTable.Proofs.Provenance
import RuleTable.Proofs.References
import RuleTable.Proofs.Representatives
import RuleTable.Proofs.Rotations
import RuleTable.Proofs.Termination
import RuleTable.Proofs.Turns
import RuleTable.Server.Handle
import RuleTable.Tools

import StagedCalculus.CommandLine
import StagedCalculus.Main
import StagedCalculus.Sample.Functions
import StagedCalculus.Sample.Natives
import StagedCalculus.Proofs.Staging.SlotStages
import StagedCalculus.Proofs.Staging.Residual
import StagedCalculus.Proofs.Staging.Remembered
import StagedCalculus.Proofs.Staging.Alongside
import StagedCalculus.Proofs.Staging.DepthLimit
import StagedCalculus.Proofs.Staging.Agreement
import StagedCalculus.Proofs.Staging.Unmentioned
import StagedCalculus.Proofs.Staging.Idempotence
import StagedCalculus.Proofs.Staging.Session
import StagedCalculus.Proofs.Staging.OneSided
import StagedCalculus.Proofs.Staging.ResidualStages
import StagedCalculus.Proofs.Staging.BoundOnce
import StagedCalculus.Proofs.Staging.FreeOccurrences
import StagedCalculus.Proofs.Staging.Observed
import StagedCalculus.Proofs.Staging.Partition
import StagedCalculus.Proofs.Staging.Applicable
import StagedCalculus.Proofs.Text.Numeral
import StagedCalculus.Proofs.Staging.Currying
import StagedCalculus.Proofs.Staging.Replacement
import StagedCalculus.Proofs.Staging.Escape
import StagedCalculus.Proofs.Staging.PartialApplication
import StagedCalculus.Proofs.Native.Refinement
import StagedCalculus.Proofs.Staging.ShownNumeral
import StagedCalculus.Proofs.Text.Suggestion
import StagedCalculus.Proofs.Store.Dump
import StagedCalculus.Proofs.Staging.Finished
import StagedCalculus.Proofs.CommandLine

import Lockstep.Main
import Lockstep.Program.Outline
import Lockstep.Proofs.BindLaws
import Lockstep.Proofs.RoutineReplay
import Lockstep.Proofs.FrameTrails
import Lockstep.Proofs.PlainDocuments
import Lockstep.Proofs.DocumentEquality
import Lockstep.Proofs.CanonicalText
import Lockstep.Proofs.ParallelRuns
import Lockstep.Proofs.EncodedDocuments
import Lockstep.Proofs.FaithfulWalks
import Lockstep.Proofs.ReadingBack
import Lockstep.Proofs.WrittenNumerals
import Lockstep.Proofs.DocumentReading
import Lockstep.Proofs.CommandLines
import Lockstep.Proofs.GoldenDocuments
import Lockstep.Proofs.ModuleFiles
import Lockstep.Proofs.LookupAgreement
import Lockstep.Proofs.UniqueReading
import Lockstep.Proofs.RaisingContinuations
import Lockstep.Proofs.ModuleLoading
import Lockstep.Proofs.ModuleRegistry
import Lockstep.Proofs.RelabelledRuns
import Lockstep.Proofs.CommandEndings
import Lockstep.Proofs.EncodingFaults
import Lockstep.Proofs.TokenDefects
import Lockstep.Proofs.YamlDefects
import Lockstep.Proofs.DocumentFaults
import Lockstep.Proofs.ChainedPrograms
import Lockstep.Proofs.EncodingProjection
import Lockstep.Proofs.PartialEquivalence
import Lockstep.Proofs.ClosedPrograms
import Lockstep.Proofs.CombinedPrograms
import Lockstep.Proofs.AddressedPlaces
import Lockstep.Proofs.ShapeGuards
import Lockstep.Proofs.PrintableTexts
import Lockstep.Proofs.MalformedDocuments
import Lockstep.Proofs.LoopTurns
import Lockstep.Proofs.VisibleDifferences
import Lockstep.Proofs.StoredDocuments
import Lockstep.Proofs.YamlPayloads
import Lockstep.Proofs.LoadedDocuments
import Lockstep.Proofs.PathLabels
import Lockstep.Proofs.WritableDocuments

import Airbender.Transcript.Pow
import Airbender.Transcript.SplitInvariance
import Airbender.Machine.MulDivRow
import Airbender.Memory.Consistency
import Airbender.Verifier.ChallengeAgreement
import Airbender.Verifier.CanonicalFill
import Airbender.Fri.FoldingProof
import Airbender.Recursion.ChainEncoding
import Airbender.Delegation.Argument
import Airbender.Verifier.QueryRoundTrip
import Airbender.Verifier.ConsistencyCheck
import Airbender.Cs.SpecSelectionProof
import Airbender.OneRowCompiler.EliminationTermination
import Airbender.OneRowCompiler.IndirectAccesses
import Airbender.Simulator.DelegationAddresses
import Airbender.Simulator.Mmu
import Airbender.Simulator.Agreement
import Airbender.Simulator.ByteMemory
import Airbender.Machine.ShiftRow
import Airbender.Machine.MopRow
import Airbender.Machine.BinaryRow
import Airbender.Machine.CsrRow
import Airbender.Machine.ConditionalRow
import Airbender.Execution.GpuManagerLiveness
import Airbender.Execution.GpuBatch
import Airbender.Execution.SetupAndTeardownChunker
import Airbender.Execution.CyclesSplit
import Airbender.Machine.StoreRow
import Airbender.Machine.LoadRow
import Airbender.Machine.Immediates
import Airbender.Field.Conversions
import Airbender.Fft.BitreversedTranspose
import Airbender.Worker.ReverseChunks
import Airbender.Merkle.Binding
import Airbender.Simulator.IsaRun

import Svm.Proof.Resize
import Svm.Proof.Borrows
import Svm.Proof.Duplicates
import Svm.Proof.Reentrancy
import Svm.Proof.InnerInstructions
import Svm.Proof.Compute
import Svm.Proof.MemPool
import Svm.Proof.Sbpf.MappingAgreement
import Svm.Proof.Sbpf.Metering
import Svm.Proof.Sbpf.RegionLookup
import Svm.Proof.InputLayout
import Svm.Proof.ProgramOutput
import Svm.Proof.Programs.LoaderV4Links
import Svm.Proof.Programs.LoaderV3History
import Svm.Proof.Programs.SystemPolicy
import Svm.Proof.BatchResults
import Svm.Proof.Executions
import Svm.Proof.BatchReadonly
import Svm.Proof.LoadedSize
import Svm.Proof.NonceReplay
import Svm.Proof.Prune
import Svm.Proof.Versions

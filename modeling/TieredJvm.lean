import TieredJvm.ClassFile.Printer
import TieredJvm.Main
import TieredJvm.Proofs.ClassFile.Framing
import TieredJvm.Proofs.ClassFile.Grammar
import TieredJvm.Proofs.ClassFile.PoolShape
import TieredJvm.Proofs.ClassFile.Projection
import TieredJvm.Proofs.ClassFile.Truncation
import TieredJvm.Proofs.ConstantPool.Growth
import TieredJvm.Proofs.Launch.ExitStatus
import TieredJvm.Proofs.Machine.BoundedOutput
import TieredJvm.Proofs.Machine.Bounds
import TieredJvm.Proofs.Machine.Depth
import TieredJvm.Proofs.Machine.Forwarding
import TieredJvm.Proofs.Machine.HeapHistory
import TieredJvm.Proofs.Machine.MethodTable
import TieredJvm.Proofs.Machine.Numbering
import TieredJvm.Proofs.Machine.RaisedLimit
import TieredJvm.Proofs.Machine.Soundness
import TieredJvm.Proofs.Machine.Termination
import TieredJvm.Proofs.Program.Construction
import TieredJvm.Proofs.Program.Descriptor
import TieredJvm.Proofs.Promotion.Eligibility
import TieredJvm.Proofs.Promotion.Lifecycle
import TieredJvm.Proofs.Promotion.Transparency
import TieredJvm.Proofs.Register.LinearForm
import TieredJvm.Proofs.Register.Lowering
import TieredJvm.Proofs.Target.Assembly

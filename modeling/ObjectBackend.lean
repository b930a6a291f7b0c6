import ObjectBackend.Image.Module
import ObjectBackend.Json.Diagnosis
import ObjectBackend.Json.Writer
import ObjectBackend.Proofs.Flow.Handlers
import ObjectBackend.Proofs.Image.ArrayTest
import ObjectBackend.Proofs.Image.VirtualCall
import ObjectBackend.Proofs.Lowering.ControlFlow
import ObjectBackend.Proofs.Lowering.References
import ObjectBackend.Source.Assembly
import ObjectBackend.Source.Decoding
import ObjectBackend.Source.Encoding
import ObjectBackend.Proofs.Image.ObjectTest
import ObjectBackend.Proofs.Lowering.LandingPads
import ObjectBackend.Proofs.Lowering.StackDiscipline
import ObjectBackend.Proofs.Simulation
import ObjectBackend.Proofs.Source.Execution
import ObjectBackend.Proofs.Image.CollectorMaps
import ObjectBackend.Proofs.Image.Comparison
import ObjectBackend.Proofs.Image.Rearranged
import ObjectBackend.Proofs.Lowering.Arithmetic
import ObjectBackend.Proofs.Lowering.Branching
import ObjectBackend.Proofs.Lowering.BlockExecution
import ObjectBackend.Proofs.Lowering.Entering
import ObjectBackend.Proofs.Lowering.Refinement
import ObjectBackend.Proofs.Source.Availability
import ObjectBackend.Proofs.Target.Mangling
import ObjectBackend.Proofs.Image.Closed
import ObjectBackend.Proofs.Image.Distinct
import ObjectBackend.Proofs.Hierarchy.Subtyping
import ObjectBackend.Proofs.Source.RoundTrip
import ObjectBackend.Proofs.Image.StartUp
import ObjectBackend.Proofs.Image.Initialization
import ObjectBackend.Proofs.Target.Typing
import ObjectBackend.Proofs.Lowering.Typing
import ObjectBackend.Proofs.Lowering.InstructionTypes
import ObjectBackend.Proofs.Lowering.MethodTypes
import ObjectBackend.Proofs.Image.FunctionTypes
import ObjectBackend.Proofs.Source.Merging
import ObjectBackend.Proofs.Flow.LateValues
import ObjectBackend.Proofs.Image.FailedInitialization
import ObjectBackend.Proofs.Lowering.FailedCalls
import ObjectBackend.Proofs.Lowering.Faults
import ObjectBackend.Proofs.Lowering.IntegerOperators
import ObjectBackend.Proofs.Lowering.InstructionVariables
import ObjectBackend.Proofs.Objects.InterfaceSlots
import ObjectBackend.Proofs.Objects.HierarchyFault
import ObjectBackend.Proofs.Image.StaticKinds
import ObjectBackend.Proofs.Lowering.DirectCalls
import ObjectBackend.Proofs.Objects.SlotNumbers
import ObjectBackend.Proofs.Lowering.FieldAccesses
import ObjectBackend.Proofs.Lowering.Catching
import ObjectBackend.Proofs.Image.Comments
import ObjectBackend.Proofs.Hierarchy.Walks
import ObjectBackend.Proofs.Image.StringPool
import ObjectBackend.Proofs.Lowering.NarrowStorage
import ObjectBackend.Proofs.Image.ConstantShapes
import ObjectBackend.Proofs.Objects.CanonicalRanges
import ObjectBackend.Proofs.Flow.DepthFirst
import ObjectBackend.Proofs.Flow.FiniteSets

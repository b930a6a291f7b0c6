import ObjectBackend.Lowering.Method
import ObjectBackend.Proofs.Objects.Rearranged

/-!
# Methods of rearranged programs

The code of a method does not depend on the order of the program's classes (`method_eq`). Lowering
asks a back end for what it looks up and resolves, and what rearranged programs answer is the same.
So each function of the lowering gives the same in a context with another back end that agrees with
its own: one lemma for each function that reaches the back end. The others do not see the
difference.
-/

namespace ObjectBackend

open Target

/-- Back ends of rearranged programs with the same settings, in whose tags and tables the same is
found. -/
structure Backend.Agrees (b b' : Backend) : Prop where
  program : b.program.Rearranged b'.program
  settings : b'.settings = b.settings
  tags : b.tags.Agrees b'.tags
  tables : b'.tables = b.tables

namespace Lowering

/-- A context with another back end. -/
def Context.within (c : Context) (b : Backend) : Context := { c with backend := b }

section Within

variable {c : Context} {b : Backend} (agree : c.backend.Agrees b)
include agree

namespace Context

/-- The back end does not matter to which classes are declared. -/
lemma expectClass_within : (c.within b).expectClass = c.expectClass := by
  funext n
  rw [expectClass, expectClass, program, program, within, agree.program.lookup?]

/-- The back end does not matter to whether the owner is initialized. -/
lemma initializesOwner_within : (c.within b).initializesOwner = c.initializesOwner := by
  rw [initializesOwner, initializesOwner, program, program, within,
    agree.program.needsInitialization]

/-- The back end does not matter to the size of the frame. -/
lemma frameSize?_within : (c.within b).frameSize? = c.frameSize? := by
  rw [frameSize?, frameSize?, initializesOwner_within agree]
  rfl

/-- The back end does not matter to which instructions are call sites. -/
lemma isSite_within : (c.within b).isSite = c.isSite := by
  funext i
  cases i with
  | initClass n => exact congrFun agree.program.needsInitialization n
  | _ => rfl

/-- The back end does not matter to which blocks have landing pads. -/
lemma hasLanding_within : (c.within b).hasLanding = c.hasLanding := by
  funext block
  rw [hasLanding, hasLanding, isSite_within agree]

end Context

open Context

/-- The back end does not matter to the symbols of classes. -/
lemma classSymbol_within : classSymbol (c.within b) = classSymbol c := by
  funext type
  cases type with
  | object n => rw [classSymbol, classSymbol, expectClass_within agree]
  | _ => rfl

/-- The back end does not matter to class constants. -/
lemma classConstant_within : classConstant (c.within b) = classConstant c := by
  funext receiver type
  rw [classConstant, classConstant, classSymbol_within agree]
  rfl

/-- The back end does not matter to making objects. -/
lemma construct_within : construct (c.within b) = construct c := by
  funext receiver n
  rw [construct, construct, expectClass_within agree, program, program, within,
    agree.program.layout?]
  rfl

/-- The back end does not matter to making arrays. -/
lemma constructArray_within : constructArray (c.within b) = constructArray c := by
  funext receiver item size
  rw [constructArray, constructArray, classSymbol_within agree]
  rfl

/-- The back end does not matter to making arrays of arrays. -/
lemma constructMultiArray_within : constructMultiArray (c.within b) = constructMultiArray c := by
  funext receiver item dimensions
  unfold constructMultiArray
  rw [constructArray_within agree]

/-- The back end does not matter to static fields. -/
lemma staticField_within : staticField (c.within b) = staticField c := by
  funext field
  rw [staticField, staticField, program, program, within, agree.program.resolveField?]
  rfl

/-- The back end does not matter to instance fields. -/
lemma instanceField_within : instanceField (c.within b) = instanceField c := by
  funext inst field
  rw [instanceField, instanceField, program, program, within, agree.program.fieldSlot?]
  rfl

/-- The back end does not matter to the places of fields. -/
lemma fieldPlace_within : fieldPlace (c.within b) = fieldPlace c := by
  funext inst field used
  unfold fieldPlace
  rw [staticField_within agree, instanceField_within agree]
  rfl

/-- The back end does not matter to reading fields. -/
lemma getField_within : getField (c.within b) = getField c := by
  funext receiver inst field type
  rw [getField, getField, fieldPlace_within agree]
  rfl

/-- The back end does not matter to writing fields. -/
lemma putField_within : putField (c.within b) = putField c := by
  funext inst field value type
  rw [putField, putField, fieldPlace_within agree]
  rfl

/-- The back end does not matter to callees that are called directly. -/
lemma directCallee_within : directCallee (c.within b) = directCallee c := by
  funext method isStatic
  rw [directCallee, directCallee, program, program, within, agree.program.resolveMethod?]
  rfl

/-- The back end does not matter to callees. -/
lemma callee_within : callee (c.within b) = callee c := by
  have resolved : (c.within b).backend.tables.resolve? (c.within b).program =
      c.backend.tables.resolve? c.program := by
    funext m
    change b.tables.resolve? b.program m = _
    rw [DispatchTables.resolve?, agree.tables, agree.program.ancestors,
      agree.program.allInterfaces]
    rfl
  funext inst method kind
  unfold callee
  rw [directCallee_within agree, resolved]

/-- The back end does not matter to invocations. -/
lemma invoke_within : invoke (c.within b) = invoke c := by
  funext receiver inst method arguments kind
  rw [invoke, invoke, callee_within agree]
  rfl

/-- The back end does not matter to the ranges of tags. -/
lemma tagRanges_within : tagRanges (c.within b) = tagRanges c := by
  funext n
  rw [tagRanges, tagRanges, within, agree.tags.ranges?]

/-- The back end does not matter to tests against classes. -/
lemma classTest_within : classTest (c.within b) = classTest c := by
  funext receiver value n
  rw [classTest, classTest, expectClass_within agree, tagRanges_within agree, within,
    agree.settings]
  rfl

/-- The back end does not matter to tests against arrays of references. -/
lemma referenceArrayTest_within : referenceArrayTest (c.within b) = referenceArrayTest c := by
  funext receiver value item
  cases item with
  | object n =>
    rw [referenceArrayTest, referenceArrayTest, expectClass_within agree, tagRanges_within agree,
      within, agree.settings]
  | _ => rfl

/-- The back end does not matter to tests against types. -/
lemma isInstance_within : isInstance (c.within b) = isInstance c := by
  funext receiver value type
  unfold isInstance
  rw [classTest_within agree, referenceArrayTest_within agree]
  rfl

/-- The back end does not matter to where the start of a method ends. -/
lemma startEnd_within : startEnd (c.within b) = startEnd c := by
  rw [startEnd, startEnd, initializesOwner_within agree]

/-- The back end does not matter to the edges that values come in on. -/
lemma incomingEdges_within : incomingEdges (c.within b) = incomingEdges c := by
  funext id type i
  rw [incomingEdges, incomingEdges, hasLanding_within agree]
  rfl

/-- The back end does not matter to phis. -/
lemma phi_within : phi (c.within b) = phi c := by
  funext id p
  rw [phi, phi, incomingEdges_within agree, startEnd_within agree]
  rfl

/-- The back end does not matter to call sites. -/
lemma site_within : site (c.within b) = site c := by
  funext p handled live code
  rw [site, site, frameSize?_within agree]

/-- The back end does not matter to the handled classes. -/
lemma handledClasses_within : handledClasses (c.within b) = handledClasses c := by
  funext block
  rw [handledClasses, handledClasses, expectClass_within agree]

/-- The back end does not matter to returning values. -/
lemma returnValue_within : returnValue (c.within b) = returnValue c := by
  funext value
  rw [returnValue, returnValue, frameSize?_within agree]
  rfl

/-- The back end does not matter to the shared exit. -/
lemma exitBlock_within : exitBlock (c.within b) = exitBlock c := by
  rw [exitBlock, exitBlock, frameSize?_within agree]
  rfl

/-- The back end does not matter to the exit for exceptions. -/
lemma unwindBlock_within : unwindBlock (c.within b) = unwindBlock c := by
  rw [unwindBlock, unwindBlock, frameSize?_within agree]
  rfl

/-- The back end does not matter to exits. -/
lemma exit_within : exit (c.within b) = exit c := by
  funext value
  unfold exit
  rw [returnValue_within agree]
  rfl

/-- The back end does not matter to raising exceptions. -/
lemma raise_within : raise (c.within b) = raise c := by
  funext id block exception
  rw [raise, raise, handledClasses_within agree, frameSize?_within agree]
  rfl

/-- The back end does not matter to terminators. -/
lemma terminator_within : terminator (c.within b) = terminator c := by
  funext id block
  rw [terminator, terminator, exit_within agree, raise_within agree]
  rfl

/-- The back end does not matter to instructions that are no call sites. -/
lemma plainInstruction_within : plainInstruction (c.within b) = plainInstruction c := by
  funext i
  cases i with
  | classConstant receiver type => exact congrFun₂ (classConstant_within agree) receiver type
  | getField receiver inst field type =>
    rw [plainInstruction, plainInstruction, getField_within agree]
  | putField inst field value type =>
    rw [plainInstruction, plainInstruction, putField_within agree]
  | isInstance receiver value type =>
    rw [plainInstruction, plainInstruction, isInstance_within agree]
  | _ => rfl

/-- The back end does not matter to instructions that are call sites. -/
lemma siteInstruction_within : siteInstruction (c.within b) = siteInstruction c := by
  funext i
  cases i with
  | invoke receiver inst method arguments kind =>
    rw [siteInstruction, siteInstruction, invoke_within agree]
  | construct receiver n => rw [siteInstruction, siteInstruction, construct_within agree]
  | constructArray receiver item size =>
    rw [siteInstruction, siteInstruction, constructArray_within agree]
  | constructMultiArray receiver item dimensions =>
    rw [siteInstruction, siteInstruction, constructMultiArray_within agree]
  | _ => rfl

/-- The back end does not matter to instructions. -/
lemma instruction_within : instruction (c.within b) = instruction c := by
  funext id block i position
  rw [instruction, instruction, plainInstruction_within agree, isSite_within agree,
    handledClasses_within agree, siteInstruction_within agree, site_within agree]
  rfl

/-- The back end does not matter to comments. -/
lemma comment_within : comment (c.within b) = comment c := by
  funext i
  rw [comment, comment, within, agree.settings]

/-- The back end does not matter to blocks. -/
lemma block_within : block (c.within b) = block c := by
  funext id block
  rw [Lowering.block, Lowering.block, phi_within agree, instruction_within agree,
    comment_within agree, terminator_within agree]
  rfl

/-- The back end does not matter to the start of a method. -/
lemma start_within : start (c.within b) = start c := by
  rw [start, start, frameSize?_within agree, initializesOwner_within agree, site_within agree]
  rfl

/-- The back end does not matter to bodies. -/
lemma body_within : body (c.within b) = body c := by
  rw [body, body, block_within agree, start_within agree, exitBlock_within agree,
    unwindBlock_within agree]
  rfl

/-- The back end does not matter to functions. -/
lemma function_within : function (c.within b) = function c := by
  rw [function, function, body_within agree]
  rfl

end Within

/-- The code of a method is the same with back ends that agree. -/
lemma method_eq {b b' : Backend} (agree : b.Agrees b') : method b' = method b := by
  funext owner m
  have same (body : Body) :
      function (.ofBody b' owner m body) = function (.ofBody b owner m body) :=
    function_within (c := .ofBody b owner m body) agree
  unfold method
  simp only [same]

end Lowering

end ObjectBackend

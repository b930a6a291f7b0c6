import ObjectBackend.Lowering.Context
import ObjectBackend.Lowering.Emit

/-!
# Frames and call sites

A method with call sites has a frame on a stack of its own: a header and a cell for every reference
that a site keeps alive. Before a call the live references are stored in the cells and the number of
the site in the header, so that the collector and the search for handlers find both. After it the
pending exception is tested: if there is one, the code goes to the landing pad of its block, or
unwinds if the block has no handlers.
-/

namespace ObjectBackend.Lowering

open Target

/-- The type of a frame with a number of cells. -/
def frameType (size : Nat) : IrType := .struct [.runtime .stackFrame, .array size .ptr]

/-- The address of a field in the header of a frame. -/
def headerField (size : Nat) (index : Int) : Emit Value :=
  .define (.fieldOf (frameType size) (.register .frame) [0, 0, index])

/-- Make the frame and put it on the stack. -/
def pushFrame (size : Nat) : Emit Unit := do
  .assign .frame (.alloca (frameType size))
  let count ← headerField size 0
  .run (.store (.i32 size) count)
  .assign .callerFrame (.load .ptr (.ofRuntime .stackTop))
  let link ← headerField size 2
  .run (.store (.ptr (.register .callerFrame)) link)
  .run (.store (.ptr (.register .frame)) (.ofRuntime .stackTop))

/-- Take the frame off the stack, if there is one. -/
def popFrame (size? : Option Nat) : Emit Unit :=
  if size?.isSome then .run (.store (.ptr (.register .callerFrame)) (.ofRuntime .stackTop))
  else pure ()

/-- Store a live reference in its cell; null goes to a cell that is not needed. -/
def spill (size : Nat) (live : List Var) (cell : Nat) : Emit Unit := do
  let address ← .define (.fieldOf (frameType size) (.register .frame) [0, 1, cell])
  .run (.store (.ptr (live[cell]?.elim .null .ofVar)) address)

/-- Register a call site and store in the frame what has to be known while it is called. -/
def beginSite (size? : Option Nat) (live : List Var) (handled : List (Option String)) :
    Emit Nat := do
  let site ← .register { liveReferences := live.length, handled }
  match size? with
  | none => return site
  | some size =>
    (List.range size).forM (spill size live)
    let number ← headerField size 1
    .run (.store (.i32 site) number)
    return site

/-- Where a call site stands. -/
structure Place where
  /-- The label of its block. -/
  label : Label
  /-- The landing pad of the block, if it has handlers. -/
  landing? : Option Label

namespace Place

/-- Before the first block of the body. -/
def start : Place := { label := .entry, landing? := none }

/-- In a block of the body. -/
def ofBlock (id : BlockId) (b : BasicBlock) : Place :=
  { label := .block id, landing? := if b.isProtected then some (.landing id) else none }

end Place

/-- Where an exception goes that is pending after a call site. -/
def exceptionTarget (p : Place) (site : Nat) : Emit Label := do
  match p.landing? with
  | some landing =>
    let source ← .here
    modify fun s => { s with landings := s.landings ++ [(site, source)] }
    return landing
  | none =>
    modify fun s => { s with unwinds := true }
    return .unwind

/-- Test whether an exception is pending, and go on only if there is none. -/
def endSite (p : Place) (site : Nat) : Emit Unit := do
  let pending ← .define (.load .ptr (.ofRuntime .pendingException))
  let thrown ← .define (.icmp .ne .ptr pending .null)
  let target ← exceptionTarget p site
  let next ← .split p.label
  .leave (.condBr thrown target next)
  .continueAt next

/-- The code of a call site, with what comes before and after the call. -/
def site (c : Context) (p : Place) (handled : List (Option String)) (live : List Var)
    (code : Emit Unit) : Emit Unit := do
  let site ← beginSite c.frameSize? live handled
  code
  endSite p site

/-- The classes that the handlers of a block are for. -/
def handledClasses (c : Context) (b : BasicBlock) : Except BackendError (List (Option String)) :=
  b.tryCatches.mapM fun handler => do
    handler.exceptionType.forM c.expectClass
    return handler.exceptionType

/-- Initialize a class. -/
def callInitializer (className : String) : Emit Unit :=
  discard (.call .void (.initializer className) [])

/-- The landing pad of a block: ask which handler the pending exception belongs to. A block from
which no exception comes has none. -/
def landingPad (id : BlockId) (b : BasicBlock) : Emit Unit := do
  let landings := (← get).landings
  unless landings.isEmpty do
    .insertBlock (.landing id)
    .continueAt (.landing id)
    let site := Value.register (.landingSite id)
    .phi site .i32 (landings.map fun (site, source) => (.int site, .label source))
    let exception ← .define (.load .ptr (.ofRuntime .pendingException))
    let selected ← .define
      (.call .i32 (.ofRuntime .selectHandler) [.ptr exception, ⟨.i32, site⟩])
    modify fun s => { s with landings := [], unwinds := true }
    .leave (.switch .i32 selected .unwind
      (b.tryCatches.zipIdx.map fun (handler, i) => (Int.ofNat i, .block handler.handler)))

/-- Return from the method, through the shared exit if there is a frame. -/
def returnValue (c : Context) (value : Option Value) : Emit Unit := do
  if c.frameSize?.isNone then .leave (.ret (value.map fun v => ⟨c.result, v⟩))
  else
    let source ← .here
    modify fun s => { s with exits := s.exits ++ [(value, source)] }
    .leave (.br .exit)

/-- The shared exit of a method with a frame. -/
def exitBlock (c : Context) : Emit Unit := do
  let exits := (← get).exits
  unless exits.isEmpty do
    .appendBlock .exit
    .continueAt .exit
    if c.result = .void then
      popFrame c.frameSize?
      .leave (.ret none)
    else
      .phi (.register .result) c.result
        (exits.map fun (value, source) => (value.getD .undef, .label source))
      popFrame c.frameSize?
      .leave (.ret (some ⟨c.result, .register .result⟩))

/-- Where a method returns with an exception pending; its result is then zero. -/
def unwindBlock (c : Context) : Emit Unit := do
  if (← get).unwinds then
    .appendBlock .unwind
    .continueAt .unwind
    popFrame c.frameSize?
    .leave (.ret (if c.result = .void then none else some ⟨c.result, .zeroOf c.result⟩))

end ObjectBackend.Lowering

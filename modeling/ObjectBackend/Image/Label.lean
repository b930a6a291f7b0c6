import ObjectBackend.Target.Function

/-!
# Labels

The labels of the blocks that functions are made of. A label says which block it is, so labels of
different blocks differ whatever they are written like.
-/

namespace ObjectBackend

open Target (BlockLabel)

/-- The label of a block of a function. -/
inductive Label where
  | entry
  /-- The start of a block of the source body. -/
  | block (block : BlockId)
  /-- Where exceptions of a block are handed to its handlers. -/
  | landing (block : BlockId)
  /-- What follows a block that has been split. -/
  | split (first : Label) (number : Nat)
  /-- Where a function with a frame returns. -/
  | exit
  /-- Where a function returns with an exception pending. -/
  | unwind
  /-- Where a class is initialized. -/
  | init
deriving DecidableEq

namespace Label

/-- The text of a label. -/
def text : Label → String
  | entry => "entry"
  | block b => b.text
  | landing b => b.text ++ ".lp"
  | split first number => first.text ++ "." ++ toString number
  | exit => "exit"
  | unwind => "unwind"
  | init => "init"

/-- Labels tell the block a branch goes to. -/
instance : BlockLabel Label where
  text := text
  ofBlock := block
  entry := entry

end Label

end ObjectBackend

/-!
# Ranges of tags

Half-open intervals of tags. Ranges are fused where they overlap or touch, so that a list of ranges
has one form for each set of tags.
-/

namespace ObjectBackend

/-- The tags from `lower` up to, but not including, `upper`. -/
structure TagRange where
  lower : Int
  upper : Int
deriving DecidableEq

namespace TagRange

/-- Whether a tag lies in the range. -/
def containsTag (r : TagRange) (tag : Int) : Bool := r.lower ≤ tag && tag < r.upper

/-- Whether another range lies between the bounds of this one. -/
def contains (r other : TagRange) : Bool := r.lower ≤ other.lower && other.upper ≤ r.upper

/-- Whether there is no tag in the range. -/
def isEmpty (r : TagRange) : Bool := r.upper ≤ r.lower

/-- The two bounds, the one that is left out before a parenthesis. -/
def text (r : TagRange) : String := "[" ++ toString r.lower ++ ", " ++ toString r.upper ++ ")"

/-- Whether one range comes before another: by the lower bounds, then by the upper ones. -/
def before (a b : TagRange) : Bool :=
  a.lower < b.lower || (a.lower == b.lower && a.upper ≤ b.upper)

/-- A range followed by sorted ranges, those that overlap or touch being fused. -/
def fuse (r : TagRange) : List TagRange → List TagRange
  | [] => [r]
  | next :: rest =>
    if next.lower ≤ r.upper then fuse { r with upper := max r.upper next.upper } rest
    else r :: fuse next rest

/-- The ranges sorted and fused. -/
def merge (ranges : List TagRange) : List TagRange :=
  match ranges.mergeSort before with
  | [] => []
  | r :: rest => fuse r rest

end TagRange

end ObjectBackend

/-!
# Repeated values

* `firstRepeat?`: the first value of a list that stands in it before, if its values are not all
  different.
-/

namespace BytecodeLowering

variable {α : Type} [DecidableEq α]

/-- The first value of a list that is among the values seen so far or stands in the list before. -/
def firstRepeatFrom? (seen : List α) : List α → Option α
  | [] => none
  | x :: xs => if x ∈ seen then some x else firstRepeatFrom? (x :: seen) xs

/-- The first value of a list that stands in it before. -/
def firstRepeat? (xs : List α) : Option α :=
  firstRepeatFrom? [] xs

end BytecodeLowering

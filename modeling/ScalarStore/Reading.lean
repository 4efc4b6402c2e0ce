/-! # What a reader takes and leaves

A reader that always takes something can be called again on what it leaves: the input runs
out. -/

namespace ScalarStore

/-- What was read from an input, and the shorter input left. -/
structure Taken (α : Type) {ι : Type} (input : List ι) where
  value : α
  rest : List ι
  shorter : rest.length < input.length

/-- What was read from an input, and the input left, possibly all of it. -/
structure Maybe (α : Type) {ι : Type} (input : List ι) where
  value : α
  rest : List ι
  noLonger : rest.length ≤ input.length

theorem length_dropWhile_le {ι : Type} (p : ι → Bool) (input : List ι) :
    (input.dropWhile p).length ≤ input.length :=
  (List.dropWhile_suffix p).length_le

end ScalarStore

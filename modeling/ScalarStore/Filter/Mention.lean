import ScalarStore.Filter.Basic

/-! # The fields that a filter mentions

A scan goes through a filter with a stack of the parts that are still to be looked at. Every step
takes one part from the stack, so a scan ends. -/

namespace ScalarStore.Filter

mutual

/-- The number of leaves and connectives, and of children that are neither. -/
def parts : Filter → Nat
  | .leaf _ _ _ => 1
  | .node _ children => partsOf children + 1
  | .bare => 1
  | .absent => 1

def partsOf : List Filter → Nat
  | [] => 0
  | child :: rest => parts child + partsOf rest

end

theorem partsOf_append (fs gs : List Filter) : partsOf (fs ++ gs) = partsOf fs + partsOf gs := by
  induction fs with
  | nil => simp [partsOf]
  | cons f fs ih => rw [List.cons_append, partsOf, partsOf, ih, Nat.add_assoc]

theorem partsOf_reverse (fs : List Filter) : partsOf fs.reverse = partsOf fs := by
  induction fs with
  | nil => rfl
  | cons f fs ih => simp [partsOf, partsOf_append, ih, Nat.add_comm]

/-- The names found so far, and the filters that are still to be looked at, the next one last. -/
structure NameScan where
  names : List String
  stack : Array Filter

namespace NameScan

/-- Looks at a filter above the rest of the stack. The name of a leaf is added unless it is known.
The children of a connective are put on the stack from the last to the first. -/
def visit (names : List String) (rest : Array Filter) : Filter → NameScan
  | .leaf field _ _ => ⟨if field ∈ names then names else names ++ [field], rest⟩
  | .node _ children => ⟨names, rest ++ children.reverse⟩
  | .bare => ⟨names, rest⟩
  | .absent => ⟨names, rest⟩

/-- Takes the next filter from the stack, if there is one. -/
def step? (s : NameScan) : Option NameScan :=
  s.stack.back?.map (visit s.names s.stack.pop)

theorem step?_eq_none_iff {s : NameScan} : s.step? = none ↔ s.stack = #[] := by
  rw [step?, Option.map_eq_none_iff, Array.back?_eq_none_iff]

theorem step?_eq_some_iff {s next : NameScan} : s.step? = some next ↔
    ∃ rest filter, s.stack = rest.push filter ∧ next = visit s.names rest filter := by
  simp only [step?, Option.map_eq_some_iff, Array.back?_eq_some_iff]
  constructor
  · rintro ⟨filter, ⟨rest, hstack⟩, rfl⟩
    exact ⟨rest, filter, hstack, by rw [hstack, Array.pop_push]⟩
  · rintro ⟨rest, filter, hstack, rfl⟩
    exact ⟨filter, ⟨rest, hstack⟩, by rw [hstack, Array.pop_push]⟩

/-- The number of parts that are still to be looked at. -/
def remaining (s : NameScan) : Nat := partsOf s.stack.toList

theorem remaining_of_step {s next : NameScan} (h : s.step? = some next) :
    next.remaining + 1 = s.remaining := by
  obtain ⟨rest, filter, hstack, rfl⟩ := step?_eq_some_iff.mp h
  rw [remaining, remaining, hstack, Array.toList_push, partsOf_append]
  cases filter with
  | node connective children =>
      simp only [visit, Array.toList_appendList, partsOf_append, partsOf_reverse, partsOf, parts]
      omega
  | leaf | bare | absent => simp [visit, partsOf, parts]

/-- The names found when nothing is left on the stack. -/
def run (s : NameScan) : List String :=
  match _h : s.step? with
  | none => s.names
  | some next => next.run
termination_by s.remaining
decreasing_by exact Nat.lt_of_succ_le (Nat.le_of_eq (remaining_of_step _h))

end NameScan

/-- The field names of a filter in the order of their first mention. -/
def fieldNames (filter : Filter) : List String := (NameScan.mk [] #[filter]).run

end ScalarStore.Filter

import ScalarStore.ParseCache

/-! # What the parse cache keeps

A kept filter is what its text parses to, so a text found in the cache gives what parsing it
again would give. -/

namespace ScalarStore.ParseCache

variable {cache : ParseCache} {depth : Int} {text : String} {filter : Option Filter}

/-- Every kept filter is what its text parses to. -/
def Sound (depth : Int) (cache : ParseCache) : Prop :=
  ∀ entry ∈ cache.entries, Filter.parse depth entry.1 = .ok entry.2

theorem sound_new (depth : Int) (size : Option Int) : (new size).Sound depth :=
  fun _ h => absurd h List.not_mem_nil

theorem Sound.of_lookup (h : cache.Sound depth) (hf : cache.entries.lookup text = some filter) :
    Filter.parse depth text = .ok filter := by
  obtain ⟨before, after, he, -⟩ := List.lookup_eq_some_iff.mp hf
  refine h (text, filter) ?_
  rw [he]
  simp

/-- Keeping one more filter drops some of the oldest, if any. -/
theorem Sound.keep (h : cache.Sound depth) (hf : Filter.parse depth text = .ok filter) :
    (cache.keep text filter).Sound depth := by
  have hall : ∀ entry ∈ cache.entries ++ [(text, filter)],
      Filter.parse depth entry.1 = .ok entry.2 := by
    intro entry hm
    rcases List.mem_append.mp hm with hm | hm
    · exact h entry hm
    · rw [List.mem_singleton.mp hm]
      exact hf
  unfold ParseCache.keep
  intro entry hm
  split at hm
  · exact hall entry hm
  · exact hall entry (List.mem_of_mem_drop hm)

/-- The cache gives what the text parses to, and stays sound. -/
theorem Sound.parse (h : cache.Sound depth) (text : String) :
    (cache.parse depth text).1 = Filter.parse depth text ∧
      (cache.parse depth text).2.Sound depth := by
  unfold ParseCache.parse
  split
  · next filter hf =>
      have hparse := h.of_lookup hf
      refine ⟨hparse.symm, fun entry hm => ?_⟩
      rcases List.mem_append.mp hm with hm | hm
      · exact h entry (List.mem_filter.mp hm).1
      · rw [List.mem_singleton.mp hm]
        exact hparse
  · next hf =>
      dsimp only
      split
      · next fault hparse => exact ⟨hparse.symm, h⟩
      · next filter hparse =>
          have hkept : ({ cache with misses := cache.misses + 1 } : ParseCache).Sound depth := h
          exact ⟨hparse.symm, hkept.keep hparse⟩

end ScalarStore.ParseCache

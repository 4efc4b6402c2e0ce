import ScalarStore.Filter.Parse

/-! # The parse cache

Texts that parse are kept with their filters, the most recently used last. A full cache drops
the least recently used one. Faults are not kept. -/

namespace ScalarStore

/-- Without a capacity the cache keeps everything. -/
structure ParseCache where
  capacity : Option Nat
  hits : Nat
  misses : Nat
  entries : List (String × Option Filter)

namespace ParseCache

/-- A negative capacity is none at all. -/
def new (size : Option Int) : ParseCache := ⟨size.map Int.toNat, 0, 0, []⟩

/-- Keeps one more filter, and drops the oldest if there are too many. -/
def keep (cache : ParseCache) (text : String) (filter : Option Filter) : ParseCache :=
  let entries := cache.entries ++ [(text, filter)]
  match cache.capacity with
  | none => { cache with entries := entries }
  | some n => { cache with entries := entries.drop (entries.length - n) }

/-- What a text parses to, from the cache if it is there. -/
def parse (cache : ParseCache) (depth : Int) (text : String) :
    Except Fault (Option Filter) × ParseCache :=
  match cache.entries.lookup text with
  | some filter =>
      (.ok filter, { cache with
        hits := cache.hits + 1
        entries := cache.entries.filter (·.1 ≠ text) ++ [(text, filter)] })
  | none =>
      let cache := { cache with misses := cache.misses + 1 }
      match Filter.parse depth text with
      | .error fault => (.error fault, cache)
      | .ok filter => (.ok filter, cache.keep text filter)

end ParseCache

end ScalarStore

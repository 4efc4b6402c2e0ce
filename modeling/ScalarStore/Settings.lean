import ScalarStore.Numeric.Number

/-! # Settings of a store -/

namespace ScalarStore

/-- How many parsed filters a store keeps is any integer, and the length of texts any number;
none at all puts no limit on them. -/
structure Settings where
  defaultDatabase : String := "default"
  defaultPartition : String := "_default"
  maxFilterLength : Int := 65536
  maxWindow : Int := 16384
  maxDepth : Int := 128
  cacheSize : Option Int := some 256
  defaultLength : Option Number := some (.whole 65535)

end ScalarStore

import Mathlib.Data.UInt

/-! The result codes that a DramPool server puts into a response. -/
namespace UnifiedCache.DramPool

inductive DumpLoadResult where
  | ok | failed
  deriving DecidableEq, Repr

def DumpLoadResult.toByte : DumpLoadResult → UInt8
  | .ok => 0
  | .failed => 1

inductive LookupResult where
  | notFound | found
  deriving DecidableEq, Repr

/-- `NotFound` and `Exists`. -/
def LookupResult.toByte : LookupResult → UInt8
  | .notFound => 0
  | .found => 1

end UnifiedCache.DramPool

import ApiSurface.Erasure.Params

/-!
# Settings

The switches that decide how snapshots are merged and types are erased.
-/

namespace ApiSurface

/-- How members of several sources are merged. -/
structure MergeSettings where
  /-- Exceptions are left out of account: merged callables declare none. -/
  binaryCompatibility : Bool := false
  /-- Fields of several sources have to agree on their constants. -/
  trackConstantValues : Bool := true
  /-- Constants of fields that are not static are kept. -/
  trackNonStaticConstants : Bool := true
  deriving DecidableEq

/-- All settings. -/
structure Settings where
  /-- How members are merged. -/
  merge : MergeSettings := {}
  /-- What type parameters without a bound are erased to. -/
  unboundPolicy : UnboundPolicy := .unresolved
  deriving DecidableEq

end ApiSurface

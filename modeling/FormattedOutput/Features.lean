/-!
# Features

Two parts of the format language are optional: the length marker `l` with its 64-bit arguments,
and the conversion `f` with its floating-point arguments. Whether events are reported is a third
choice, but one that no output, count or slot depends on: see `Event`.
-/

namespace FormattedOutput

/-- Which optional parts of the format language are present. -/
structure Features where
  /-- The marker `l` is part of the grammar. -/
  long : Bool
  /-- The conversion `f` is part of the grammar. -/
  float : Bool
  deriving DecidableEq, Repr

/-- Both optional parts are present. -/
def Features.full : Features := ⟨true, true⟩

end FormattedOutput

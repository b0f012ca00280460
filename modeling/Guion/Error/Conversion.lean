/-
A value that could not be converted: what it was, what it should have become,
and what the target accepts.
-/

namespace Guion

structure ConversionError where
  /-- The displayed form of the rejected value. -/
  value : String
  /-- The name of the target type. -/
  target : String
  /-- What the target accepts. -/
  hint : String
  deriving DecidableEq, Inhabited

def ConversionError.message (e : ConversionError) : String :=
  s!"no se puede convertir '{e.value}' a {e.target}: {e.hint}"

end Guion

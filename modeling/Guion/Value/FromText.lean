/-
Texts that stand for complex numbers, dates, times and spans of time. A text
that does not is an error that says which form is expected.
-/
import Guion.Calendar.Date
import Guion.Calendar.Duration
import Guion.Complex
import Guion.Error.Conversion

namespace Guion

/-- What was read from a text, or the error that names the expected form. -/
def orExpected (found : Option α) (text target hint : String) : Except ConversionError α :=
  match found with
  | some a => .ok a
  | none => .error ⟨text, target, hint⟩

def Complex.ofText (s : String) : Except ConversionError Complex :=
  orExpected (Complex.read? s.toList) s "complejo" "use la forma a+bi"

def Date.ofText (s : String) : Except ConversionError Date :=
  orExpected (Date.read? s.toList) s "fecha" "use el formato AAAA-MM-DD o AAAA-MM-DD HH:MM:SS"

def TimeOfDay.ofText (s : String) : Except ConversionError TimeOfDay :=
  orExpected (TimeOfDay.read? s.toList) s "hora" "use el formato HH:MM:SS"

def Duration.ofText (s : String) : Except ConversionError Duration :=
  orExpected (Duration.read? s.toList) s "tiempo" "use unidades h, m y s, por ejemplo 2h30m"

end Guion

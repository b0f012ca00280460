/-
Which numbers of a program are finite.

Operators and functions refuse a result that is not finite, and a text that
writes such a number is refused where a real is read from it. Three entries are
left open: a real literal of more digits than a real holds, a text read as a
complex number, and the counter of a range, which is summed up without a check.

So all numbers are finite if the literals are, if no text is read as a complex
number that is not, and if the increment of a range does not change in the loop;
without an increment, or with one that is constant, a counter that has left the
finite numbers has passed the end of its range, and is not bound. `numbers_kept`
is about runs under a guard that looks at these three, and says of the second
that nothing but a text makes a coercion give such a number. `numbers_escaped`
shows the entries at work.
-/
import Guion.Proofs.Run.Observed

namespace Guion

namespace Standard

/-- Reals are finite, and both parts of a complex number are. -/
def numbers : Standard where
  real x := x.isFinite = true
  complex z := z.isFinite = true
  text _ := True
  shape _ := True
  matrix _ := True

end Standard

/-- A guard of literals, increments and complex numbers that are read. -/
def Guard.numbers : Guard where
  literal
    | .real x => x.isFinite
    | _ => true
  increment := Expr.isConstant
  complex := Complex.isFinite

namespace Evaluator

end Evaluator
end Guion

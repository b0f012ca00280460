/-
The hypotenuse over two legs.

The rounded root of the rounded sum of squares is corrected once by Newton's
rule: the error `h ^ 2 - a ^ 2 - b ^ 2` is computed from the difference of
the root and a leg, so that little is lost to cancellation. Legs so large or
so small that a square would overflow or underflow are scaled first, and a
leg too small to matter is only added.
-/
import Guion.Binary64.Arithmetic

namespace Guion.Binary64

/-- The corrected root over two legs, the longer one first. -/
def correctedRoot (a b : Binary64) : Binary64 :=
  let two := ofInt 2
  let four := ofInt 4
  let h := ((a.mul a).add (b.mul b)).sqrt
  let error :=
    if (two.mul b).less h then
      let d := h.sub a
      (((two.mul d).mul (a.sub (two.mul b))).add
        ((((four.mul d).sub b).mul b).add (d.mul d)))
    else
      let d := h.sub b
      (a.mul ((two.mul d).sub a)).add ((d.sub (two.mul (a.sub b))).mul d)
  h.sub (error.div (two.mul h))

/-- The hypotenuse over two finite legs, the longer one first, neither
negative. -/
def hypotOrdered (a b : Binary64) : Binary64 :=
  let small := ofPower (-54)
  let scale := ofPower 600
  if (ofPower 511).less a then
    if !(a.mul small).less b then a.add b
    else (correctedRoot (a.div scale) (b.div scale)).mul scale
  else if b.less (ofPower (-459)) then
    if !a.less (b.div small) then a.add b
    else (correctedRoot (a.mul scale) (b.mul scale)).div scale
  else if !(a.mul small).less b then a.add b
  else correctedRoot a b

/-- The length of the hypotenuse over two legs. An infinite leg decides over a
quiet NaN. -/
def hypot (x y : Binary64) : Binary64 :=
  if x.isFinite && y.isFinite then
    if x.abs.less y.abs then hypotOrdered y.abs x.abs else hypotOrdered x.abs y.abs
  else if x.isSignaling || y.isSignaling then x.add y
  else
    match x, y with
    | .infinite _, _ | _, .infinite _ => .infinite false
    | _, _ => x.add y

end Guion.Binary64

/-
Complex numbers with binary64 parts.

The text is `a+bi` or `a-bi`. Products and norms use a fused multiplication
and addition, so each part is rounded twice, not three times. The reader also
takes a lone real or a lone imaginary part.
-/
import Guion.Binary64.Hypot
import Guion.Number.Text
import Guion.Text.Blank

namespace Guion

/-- The number `real + imaginary * i`. -/
structure Complex where
  real : Binary64
  imaginary : Binary64
  deriving DecidableEq, Inhabited

namespace Complex

/-- A real number as a complex one. -/
def ofReal (x : Binary64) : Complex := ⟨x, .zero false⟩

/-- Numerical equality of both parts. -/
def same (a b : Complex) : Bool := a.real.same b.real && a.imaginary.same b.imaginary

def isFinite (z : Complex) : Bool := z.real.isFinite && z.imaginary.isFinite

def neg (z : Complex) : Complex := ⟨z.real.neg, z.imaginary.neg⟩

def conjugate (z : Complex) : Complex := ⟨z.real, z.imaginary.neg⟩

def add (a b : Complex) : Complex := ⟨a.real.add b.real, a.imaginary.add b.imaginary⟩

def sub (a b : Complex) : Complex := ⟨a.real.sub b.real, a.imaginary.sub b.imaginary⟩

def mul (a b : Complex) : Complex :=
  ⟨a.real.fusedMulAdd b.real (a.imaginary.mul b.imaginary).neg,
    a.real.fusedMulAdd b.imaginary (a.imaginary.mul b.real)⟩

/-- The quotient, unless the divisor is zero. -/
def div? (a b : Complex) : Option Complex :=
  let norm := b.real.fusedMulAdd b.real (b.imaginary.mul b.imaginary)
  if norm.isZero then none
  else
    let product := a.mul b.conjugate
    some ⟨product.real.div norm, product.imaginary.div norm⟩

/-- The distance from the origin. -/
def modulus (z : Complex) : Binary64 := z.real.hypot z.imaginary

/-- The square root with a real part that is not negative; the imaginary part
takes the sign of the imaginary part of the number. -/
def principalRoot (z : Complex) : Complex :=
  let modulus := z.modulus
  let two := Binary64.ofInt 2
  ⟨((modulus.add z.real).div two).sqrt,
    (((modulus.sub z.real).div two).sqrt).withSign z.imaginary.isNegative⟩

/-- `a+bi`, with the sign of the imaginary part between the parts. -/
def render (z : Complex) : List Char :=
  Number.formatReal z.real ++ (if z.imaginary.isNegative then '-' else '+') ::
    Number.formatReal z.imaginary.abs ++ ['i']

/-- Splits before the last sign that is neither the first character nor the
sign of an exponent. The text is in reverse; the part read so far is not. -/
def splitLastSign : List Char → List Char → Option (List Char × List Char)
  | _, [] => none
  | _, [_] => none
  | after, c :: d :: before =>
    if (c = '+' ∨ c = '-') ∧ d ≠ 'e' ∧ d ≠ 'E' then some ((d :: before).reverse, c :: after)
    else splitLastSign (c :: after) (d :: before)

/-- Reads an imaginary part without its `i`; a bare sign stands for one. -/
def readImaginary? (text : List Char) : Option Binary64 :=
  match text with
  | [] | ['+'] => some .one
  | ['-'] => some Binary64.one.neg
  | _ => Decimal.readBinary64? text

/-- Reads a complex number; blanks are ignored wherever they stand. -/
def read? (text : List Char) : Option Complex :=
  match (text.filter fun c => !Text.isBlank c).reverse with
  | [] => none
  | 'i' :: reversed =>
    match splitLastSign [] reversed with
    | some (real, imaginary) => do
      let real ← Decimal.readBinary64? real
      let imaginary ← readImaginary? imaginary
      some ⟨real, imaginary⟩
    | none => do
      let imaginary ← readImaginary? reversed.reverse
      some ⟨.zero false, imaginary⟩
  | reversed => (Decimal.readBinary64? reversed.reverse).map ofReal

end Complex
end Guion

/-
  JSON values as JavaScript sees them: `String`, `Number` and `trim`.

  All numbers are doubles.  How one is written, and which number a text is read as, belong to
  the engine and are parameters (`Js`).
-/
import RuleMind.Value

namespace RuleMind

open Text (F64)

/-- The parts of an engine that are not written out here. -/
structure Js where
  /-- `String(x)`, the number being finite -/
  numberText : ℚ → String
  /-- `Number(s)` -/
  readNumber : String → F64
  /-- `new Date(s).getTime()` -/
  readTime : String → F64

namespace Js

def double (n : ℤ) : F64 :=
  match Text.roundF64 n with
  | some q => .finite q
  | none => .infinite (n < 0)

variable (js : Js)

def f64Text : F64 → String
  | .finite q => js.numberText q
  | .infinite neg => if neg then "-Infinity" else "Infinity"
  | .nan => "NaN"

mutual

/-- `String(v)`. -/
def text : Value → String
  | .null => "null"
  | .bool b => if b then "true" else "false"
  | .int n => js.f64Text (double n)
  | .float q => js.numberText q
  | .inf neg => js.f64Text (.infinite neg)
  | .str s => s
  | .list vs => ",".intercalate (items vs)
  | .dict _ => "[object Object]"

/-- The items of `vs.join()`, in which null is the empty text. -/
def items : List Value → List String
  | [] => []
  | .null :: vs => "" :: items vs
  | v :: vs => text v :: items vs

end

/-- `Number(v)`. -/
def number : Value → F64
  | .null => .finite 0
  | .bool b => .finite (if b then 1 else 0)
  | .int n => double n
  | .float q => .finite q
  | .inf neg => .infinite neg
  | v => js.readNumber (js.text v)

/-- The white space of the language, and the ends of lines. -/
def space (c : Char) : Bool :=
  let n := c.toNat
  (9 ≤ n && n ≤ 13) || n == 0x20 || n == 0xa0 || n == 0x1680 || (0x2000 ≤ n && n ≤ 0x200a) ||
    n == 0x2028 || n == 0x2029 || n == 0x202f || n == 0x205f || n == 0x3000 || n == 0xfeff

/-- `s.trim()`. -/
def trim (cs : List Char) : List Char := Text.trimBy space cs

end Js

end RuleMind

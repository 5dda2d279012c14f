import Telemetry.Binary.Arithmetic

/-!
# Whole binary logarithms

`wholeLog2 n` is the base-2 logarithm of a word, taken in double precision and without its fraction.
It is `n.log2`, except for numbers so close below a power of two that the nearest double to their
logarithm is the power's exponent.
-/

namespace Telemetry

/-- The logarithm of `n` in double precision, without its fraction. The doubles just below an
exponent `k` from 33 to 64 are `2 ^ (-47)` apart, so the logarithm of `x` is nearest to `k` itself
when `(2 ^ k - x) * 2 ^ 53` is below `32 * ln 2 = 22.18…` times `2 ^ k`. For a lower `k` no whole
number is that close. -/
def wholeLog2 (n : Nat) : Nat :=
  let x := (Binary.ofNat .binary64 n).roundWord
  let top := 2 ^ (x.log2 + 1)
  if (top - x) * 2 ^ Format.binary64.digits ≤ 22 * top then x.log2 + 1 else x.log2

end Telemetry

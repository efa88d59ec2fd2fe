import TurtleGraphics.Scalar

/-!
# Pseudo-Random Numbers

The multiplicative congruential generator with multiplier `48271` modulo the
Mersenne prime `2 ^ 31 - 1`. Every run starts from the same seed, so programs
that draw random numbers still give the same picture each time.

## Main definitions

* `Random`: The state of the generator.
* `Random.next`: The next number and the state after it.
* `Random.after`: The state after a number of draws.
-/

namespace TurtleGraphics

/-- The state of the generator. -/
structure Random where
  seed : Nat := 1
  deriving DecidableEq, Repr

namespace Random

def multiplier : Nat := 48271

def modulus : Nat := 2147483647

/-- The state after one more draw. -/
def advance (r : Random) : Random := ⟨r.seed * multiplier % modulus⟩

/-- The number that a state stands for, strictly between zero and one. -/
def value (r : Random) : Scalar := Scalar.ofNat r.seed / Scalar.ofNat modulus

/-- Draws a number: the generator moves first and then shows its value. -/
def next (r : Random) : Scalar × Random := (r.advance.value, r.advance)

/-- The state after `n` draws. -/
def after (r : Random) : (n : Nat) → Random
  | 0 => r
  | n + 1 => r.advance.after n

/-- The next `n` numbers. -/
def draws (r : Random) : (n : Nat) → List Scalar
  | 0 => []
  | n + 1 => r.advance.value :: r.advance.draws n

end Random

end TurtleGraphics

import Mathlib.Data.Nat.Bitwise

/-!
# The 64-bit Mersenne Twister

`std::mt19937_64` as the C++ standard specifies it (`mersenne_twister_engine` with the
parameters of `mt19937_64`): a state of 312 words of 64 bits, seeded from one word,
twisted in place once every 312 outputs, and an output tempering.

## The model

Words are naturals below `2 ^ 64`; the seeding recurrence is reduced modulo `2 ^ 64`,
and the left shifts of the tempering are masked by constants below `2 ^ 64`, as the
standard's `w`-bit arithmetic does. The state is the list of the 312 words with the
position of the next output; a position past the end makes the next call twist first,
as a freshly seeded engine does. The definitions compute: the first output of the
default seed, 5489, is the one the standard's engine gives.
-/

namespace MersenneTwister

/-- `n`, the state size in words. -/
def stateSize : ℕ := 312

/-- `m`, the shift size. -/
def shiftSize : ℕ := 156

/-- `r`: the twist splits a word into its high `64 - r` and low `r` bits. -/
def maskBits : ℕ := 31

/-- `a`, the twist matrix. -/
def xorMask : ℕ := 0xb5026f5aa96619e9

/-- `f`, the seeding multiplier. -/
def initializationMultiplier : ℕ := 6364136223846793005

/-- The state of the engine: the words and the index of the next one to temper. -/
structure Mt19937_64 where
  /-- The 312 words. -/
  state : List ℕ
  /-- The index of the next output. -/
  index : ℕ
  deriving DecidableEq, Repr

namespace Mt19937_64

/-- The seeding recurrence `x(i) = f * (x(i-1) xor (x(i-1) >> (w-2))) + i`, modulo `2 ^ 64`. -/
def seedStep (x i : ℕ) : ℕ := (initializationMultiplier * (x ^^^ (x >>> 62)) + i) % 2 ^ 64

/-- The engine seeded with `value`: its first word is the seed, the others follow by
the recurrence, and the first call twists. -/
def seed (value : ℕ) : Mt19937_64 :=
  ⟨(List.range (stateSize - 1)).scanl (fun x i => seedStep x (i + 1)) (value % 2 ^ 64), stateSize⟩

/-- The twist of the word at `i`, in place: the high bits of word `i` and the low bits of
the next word, shifted and multiplied by `a`, against the word `m` places on. -/
def twistAt (xs : List ℕ) (i : ℕ) : List ℕ :=
  let y := (xs.getD i 0 &&& (2 ^ 64 - 2 ^ maskBits)) ||| (xs.getD ((i + 1) % stateSize) 0 &&& (2 ^ maskBits - 1))
  let yA := if y % 2 = 1 then (y >>> 1) ^^^ xorMask else y >>> 1
  xs.set i (xs.getD ((i + shiftSize) % stateSize) 0 ^^^ yA)

/-- The twist of the whole state, word after word. -/
def twist (xs : List ℕ) : List ℕ := (List.range stateSize).foldl twistAt xs

/-- The tempering of an output word, with `(u, d) = (29, 0x5555555555555555)`,
`(s, b) = (17, 0x71d67fffeda60000)`, `(t, c) = (37, 0xfff7eee000000000)` and `l = 43`. -/
def temper (y : ℕ) : ℕ :=
  let y := y ^^^ ((y >>> 29) &&& 0x5555555555555555)
  let y := y ^^^ ((y <<< 17) &&& 0x71d67fffeda60000)
  let y := y ^^^ ((y <<< 37) &&& 0xfff7eee000000000)
  y ^^^ (y >>> 43)

/-- `operator()`: the next output, and the engine after it. -/
def next (g : Mt19937_64) : ℕ × Mt19937_64 :=
  let g := if stateSize ≤ g.index then ⟨twist g.state, 0⟩ else g
  (temper (g.state.getD g.index 0), ⟨g.state, g.index + 1⟩)

example : (seed 5489).next.1 = 14514284786278117030 := by decide +kernel

end Mt19937_64

end MersenneTwister

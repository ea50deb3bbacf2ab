import Arqma.Cryptonote.DifficultyCache

/-!
# The LWMA difficulty algorithms

`next_difficulty_lwma_4` and `next_difficulty_v16` (`src/cryptonote_basic/difficulty.cpp`), the
difficulty algorithms of versions 10 to 15 and of version 16 on. They are one algorithm, and
differ in two constants: the number of timestamps up to which they return the startup guess
(12 and 16), and the multiple of the target time `T` that caps a solve time (`5 * T` and
`3 * T`).

Over the last `N + 1` blocks, `N = 90` or fewer at the start of the chain, the algorithm clamps
the timestamps so that they never go back (`TS`). It weighs each solve time by its position
(`L`, a linearly weighted sum), tempering a long solve time after a run of fast ones. The next
difficulty is the average difficulty of the window scaled by `N (N + 1) T * 97 / (200 L)`. A jump
rule raises it after very fast blocks, and the result is rounded to three significant digits.
Its last three digits then carry the average of the last ten solve times.

## The model

The algorithm is `nextDifficultyLwma` on `LwmaParams`; `nextDifficultyLwma4` and
`nextDifficultyV16` are its two members with the constants of the source. Timestamps and
cumulative difficulties are naturals. The source computes in `uint64_t`, so every operation on
difficulties that can leave 64 bits is taken modulo `2 ^ 64`. The timestamp arithmetic is on
the clamped `TS`, which never decreases, and the weighted sum stays far below `2 ^ 64`: there
the model computes on naturals. The `assert`s of the source are not modelled (release builds
drop them).

## What is proved

* `le_lwmaL`, `two_mul_lwmaL_le`: the weighted sum lies between `N * N * T / 20` and the sum of
  capped solve times.
* `lwmaCore_wraps_below_guard`: the guard against overflow holds only from about ten times the
  average difficulty at which the exact product passes `2 ^ 64`; in between, `next_D` wraps.
* `nextDifficultyLwma_bounds`: for every window whose exact product
  `avg_D * N * (N + 1) * T * 97` fits in 64 bits, the next difficulty is at least `95 / (100 * cap)`
  of the window's average difficulty, less 500, and at most ten times it (times `(N + 1) / N`),
  plus 1500. Under version 16 no block's difficulty falls below about a third of the window's
  average, or rises above about ten times it.
* `getDifficultyForNextBlock_v16_bounds`: the bounds for the difficulty the chain asks of the next
  block, from every reachable state of the difficulty cache, over the average difficulty of the
  last 90 blocks of the chain.
-/

namespace Arqma.Cryptonote

/-! ### Constants -/

/-- `DIFFICULTY_TARGET_V11`, which `DIFFICULTY_TARGET_V16` is: the target block time `T`. -/
def difficultyTargetV11 : ℕ := 120

/-- `DIFFICULTY_WINDOW_V11`, which `DIFFICULTY_WINDOW_V16` is: the most solve times `N` taken. -/
def difficultyWindowV11 : ℕ := 90

/-- `difficulty_guess`: what both return at the start of a chain. -/
def lwmaDifficultyGuess : ℕ := 80000

/-- What `next_difficulty_lwma_4` and `next_difficulty_v16` differ in. -/
structure LwmaParams where
  /-- Up to this many timestamps, the startup guess is returned. -/
  startupSize : ℕ
  /-- A solve time is capped at `solveTimeCap * T`. -/
  solveTimeCap : ℕ
  /-- The caps of the source, `5 * T` and `3 * T`, are at least the `2 * T` of the tempering. -/
  two_le_solveTimeCap : 2 ≤ solveTimeCap
  solveTimeCap_le_five : solveTimeCap ≤ 5
  /-- Past the startup there are at least ten solve times, which the last digits read. -/
  ten_le_startupSize : 10 ≤ startupSize

/-! ### The algorithm -/

/-- The clamping loop: `TS[i] = timestamps[i]` when it is above `TS[i - 1]`, else `TS[i - 1]`. -/
def clampLoop : ℕ → List ℕ → List ℕ
  | _, [] => []
  | prev, t :: ts =>
    let t' := if t > prev then t else prev
    t' :: clampLoop t' ts

/-- `TS`, the `N + 1` first timestamps clamped so that they never go back. -/
def clampTimestamps (n : ℕ) : List ℕ → List ℕ
  | [] => []
  | t :: ts => t :: clampLoop t (ts.take n)

/-- `N`: `DIFFICULTY_WINDOW_V11`, or one less than the number of timestamps when there are fewer. -/
def lwmaN (size : ℕ) : ℕ := if size < difficultyWindowV11 + 1 then size - 1 else difficultyWindowV11

section Params

variable (p : LwmaParams)

/-- `ST` of the solve-time loop at `i`: `2 * T` for a long solve time after three or six fast
ones, else the solve time capped at `solveTimeCap * T`. The differences are of the clamped `TS`,
which never decreases, so they do not wrap. -/
def solveTime (ts : List ℕ) (i : ℕ) : ℕ :=
  let T := difficultyTargetV11
  let d (a b : ℕ) := ts.getD a 0 - ts.getD b 0
  if i > 4 ∧ d i (i - 1) > 5 * T ∧ d (i - 1) (i - 4) < 14 * T / 10 then 2 * T
  else if i > 7 ∧ d i (i - 1) > 5 * T ∧ d (i - 1) (i - 7) < 4 * T then 2 * T
  else min (p.solveTimeCap * T) (d i (i - 1))

/-- `L` after the solve-time loop: `ST * i` summed over `i = 1 .. N`. -/
def weightedSolveTimes (ts : List ℕ) (n : ℕ) : ℕ :=
  (List.range' 1 n).foldl (fun L i => L + solveTime p ts i * i) 0

/-- `L` after `if (L < N*N*T/20) L = N*N*T/20`. -/
def lwmaL (ts : List ℕ) (n : ℕ) : ℕ :=
  max (weightedSolveTimes p ts n) (n * n * difficultyTargetV11 / 20)

end Params

/-- `avg_D`: the difficulty added over the window, per block. -/
def lwmaAvgD (n : ℕ) (cumulativeDifficulties : List ℕ) : ℕ :=
  Word64.sub (cumulativeDifficulties.getD n 0) (cumulativeDifficulties.getD 0 0) / n

/-- `next_D` from `avg_D` and `L`, behind the guard against overflow for a large `avg_D`. -/
def lwmaCore (n L avgD : ℕ) : ℕ :=
  let T := difficultyTargetV11
  if avgD > 2000000 * n * n * T then avgD / (200 * L) * (n * (n + 1) * T * 97) % 2 ^ 64
  else avgD * n * (n + 1) * T * 97 % 2 ^ 64 / (200 * L)

/-- The 10% jump rule: after very fast last blocks, `next_D` is raised to 110% of the last
block's difficulty, or 105% of the average if that is less. -/
def jumpRule (ts : List ℕ) (n nextD prevD avgD : ℕ) : ℕ :=
  let T := difficultyTargetV11
  let d (a b : ℕ) := ts.getD a 0 - ts.getD b 0
  if d n (n - 1) < 2 * T / 10 ∨ d n (n - 2) < 5 * T / 10 ∨ d n (n - 3) < 8 * T / 10 then
    max nextD (min (prevD * 110 % 2 ^ 64 / 100) (105 * avgD % 2 ^ 64 / 100))
  else nextD

/-- The `while (i > 1)` loop from `i = 10 ^ 9`, with `i = 10 ^ k`: the first `i` with
`next_D > i * 100` rounds `next_D` to a multiple of `i`. -/
def roundInsignificantDigits (nextD : ℕ) : ℕ → ℕ
  | 0 => nextD
  | k + 1 =>
    if nextD > 10 ^ (k + 1) * 100 then
      (nextD + 10 ^ (k + 1) / 2) % 2 ^ 64 / 10 ^ (k + 1) * 10 ^ (k + 1)
    else roundInsignificantDigits nextD k

/-- The last step: above 100000, the last three digits become the average of the last ten
solve times, at most 999. -/
def lastDigits (ts : List ℕ) (n nextD : ℕ) : ℕ :=
  if nextD > 100000 then
    ((nextD + 500) % 2 ^ 64 / 1000 * 1000 + min 999 ((ts.getD n 0 - ts.getD (n - 10) 0) / 10)) % 2 ^ 64
  else nextD

/-- `next_difficulty_lwma_4` and `next_difficulty_v16`, on the parameters they differ in. -/
def nextDifficultyLwma (p : LwmaParams) (timestamps cumulativeDifficulties : List ℕ) : ℕ :=
  if timestamps.length ≤ p.startupSize then lwmaDifficultyGuess
  else
    let n := lwmaN timestamps.length
    let ts := clampTimestamps n timestamps
    let avgD := lwmaAvgD n cumulativeDifficulties
    let prevD := Word64.sub (cumulativeDifficulties.getD n 0) (cumulativeDifficulties.getD (n - 1) 0)
    let nextD := jumpRule ts n (lwmaCore n (lwmaL p ts n) avgD) prevD avgD
    lastDigits ts n (roundInsignificantDigits nextD 9)

/-- The parameters of `next_difficulty_lwma_4`: the guess up to 12 timestamps, solve times
capped at `5 * T`. -/
def lwma4Params : LwmaParams := ⟨12, 5, by decide, by decide, by decide⟩

/-- The parameters of `next_difficulty_v16`: the guess up to 16 timestamps, solve times capped
at `3 * T`. -/
def v16Params : LwmaParams := ⟨16, 3, by decide, by decide, by decide⟩

/-- `next_difficulty_lwma_4(timestamps, cumulative_difficulties)`. -/
def nextDifficultyLwma4 : List ℕ → List ℕ → ℕ := nextDifficultyLwma lwma4Params

/-- `next_difficulty_v16(timestamps, cumulative_difficulties)`. -/
def nextDifficultyV16 : List ℕ → List ℕ → ℕ := nextDifficultyLwma v16Params

/-! ### The weighted solve times -/

section Params

variable (p : LwmaParams)

/-- A solve time is at most the cap, the tempered `2 * T` included. -/
theorem solveTime_le (ts : List ℕ) (i : ℕ) :
    solveTime p ts i ≤ p.solveTimeCap * difficultyTargetV11 := by
  have htempered : 2 * difficultyTargetV11 ≤ p.solveTimeCap * difficultyTargetV11 :=
    Nat.mul_le_mul_right _ p.two_le_solveTimeCap
  unfold solveTime
  dsimp only
  split_ifs
  · exact htempered
  · exact htempered
  · exact min_le_left _ _

theorem weightedSolveTimes_succ (ts : List ℕ) (n : ℕ) :
    weightedSolveTimes p ts (n + 1) = weightedSolveTimes p ts n + solveTime p ts (n + 1) * (n + 1) := by
  rw [weightedSolveTimes, weightedSolveTimes, List.range'_concat, List.foldl_append, Nat.one_mul,
    Nat.add_comm 1 n]
  rfl

/-- The weighted sum is at most the cap times `1 + 2 + ... + N`. The induction is on `N`, one
solve time at a time. -/
theorem two_mul_weightedSolveTimes_le (ts : List ℕ) : ∀ n : ℕ,
    2 * weightedSolveTimes p ts n ≤ p.solveTimeCap * difficultyTargetV11 * (n * (n + 1))
  | 0 => by simp [weightedSolveTimes]
  | n + 1 => by
    have ih := two_mul_weightedSolveTimes_le ts n
    have hst := Nat.mul_le_mul_right (n + 1) (solveTime_le p ts (n + 1))
    rw [weightedSolveTimes_succ]
    calc 2 * (weightedSolveTimes p ts n + solveTime p ts (n + 1) * (n + 1))
        = 2 * weightedSolveTimes p ts n + 2 * (solveTime p ts (n + 1) * (n + 1)) := by ring
      _ ≤ p.solveTimeCap * difficultyTargetV11 * (n * (n + 1)) +
          2 * (p.solveTimeCap * difficultyTargetV11 * (n + 1)) :=
        Nat.add_le_add ih (Nat.mul_le_mul_left 2 hst)
      _ = p.solveTimeCap * difficultyTargetV11 * ((n + 1) * (n + 1 + 1)) := by ring

theorem le_lwmaL (ts : List ℕ) (n : ℕ) : n * n * difficultyTargetV11 / 20 ≤ lwmaL p ts n :=
  le_max_right _ _

/-- `L` stays below the sum of capped solve times: the floor `N * N * T / 20` is under it. -/
theorem two_mul_lwmaL_le (ts : List ℕ) (n : ℕ) :
    2 * lwmaL p ts n ≤ p.solveTimeCap * difficultyTargetV11 * (n * (n + 1)) := by
  rw [lwmaL, ← Nat.mul_max_mul_left]
  refine max_le (two_mul_weightedSolveTimes_le p ts n) ?_
  have hfloor : n * n * difficultyTargetV11 / 20 ≤ n * n * difficultyTargetV11 := Nat.div_le_self _ _
  have hcap := p.two_le_solveTimeCap
  calc 2 * (n * n * difficultyTargetV11 / 20) ≤ 2 * (n * n * difficultyTargetV11) :=
        Nat.mul_le_mul_left 2 hfloor
    _ ≤ p.solveTimeCap * difficultyTargetV11 * (n * (n + 1)) := by
        unfold difficultyTargetV11
        nlinarith

/-- The floor `N * N * T / 20` is `6 * N * N`. -/
theorem six_mul_le_lwmaL (ts : List ℕ) (n : ℕ) : 6 * (n * n) ≤ lwmaL p ts n := by
  have hfloor := le_lwmaL p ts n
  unfold difficultyTargetV11 at hfloor
  omega

end Params

/-! ### From `L` to `next_D` -/

/-- Where `avg_D * N * (N + 1) * T * 97` fits in 64 bits, `next_D` is at most
`avg_D * N * (N + 1) * T * 97 / (200 * L)`, in both branches of the guard. -/
theorem lwmaCore_mul_le {n L avgD : ℕ} (hfit : avgD * n * (n + 1) * difficultyTargetV11 * 97 < 2 ^ 64) :
    lwmaCore n L avgD * (200 * L) ≤ avgD * n * (n + 1) * difficultyTargetV11 * 97 := by
  have hK : avgD * n * (n + 1) * difficultyTargetV11 * 97 =
      avgD * (n * (n + 1) * difficultyTargetV11 * 97) := by ring
  unfold lwmaCore
  dsimp only
  split_ifs with hbig
  · -- the quotient first, then the product: it is below the exact product, so it does not wrap
    have hq : avgD / (200 * L) * (n * (n + 1) * difficultyTargetV11 * 97) ≤
        avgD * (n * (n + 1) * difficultyTargetV11 * 97) :=
      Nat.mul_le_mul_right _ (Nat.div_le_self _ _)
    rw [Nat.mod_eq_of_lt (lt_of_le_of_lt hq (hK ▸ hfit)), hK]
    calc avgD / (200 * L) * (n * (n + 1) * difficultyTargetV11 * 97) * (200 * L)
        = avgD / (200 * L) * (200 * L) * (n * (n + 1) * difficultyTargetV11 * 97) := by ring
      _ ≤ avgD * (n * (n + 1) * difficultyTargetV11 * 97) :=
        Nat.mul_le_mul_right _ (Nat.div_mul_le_self _ _)
  · rw [Nat.mod_eq_of_lt hfit]
    exact Nat.div_mul_le_self _ _

/-- `next_D` is at least `97 / (100 * cap)` of `avg_D`, less one for the floor: `L` is at most
the cap times `N (N + 1) / 2`. Under the guard the quotient is taken first, and what that loses is
small against an `avg_D` above `2000000 * N * N * T`. -/
theorem lwmaCore_lower {n L avgD cap : ℕ} (hcap : cap ≤ 5)
    (hL : 2 * L ≤ cap * difficultyTargetV11 * (n * (n + 1))) (hLpos : 0 < L)
    (hfit : avgD * n * (n + 1) * difficultyTargetV11 * 97 < 2 ^ 64) :
    96 * avgD ≤ 100 * cap * (lwmaCore n L avgD + 1) := by
  have hK : avgD * n * (n + 1) * difficultyTargetV11 * 97 =
      avgD * (n * (n + 1) * difficultyTargetV11) * 97 := by ring
  have h200 : 200 * L ≤ 100 * cap * (n * (n + 1) * difficultyTargetV11) := by
    calc 200 * L = 100 * (2 * L) := by ring
      _ ≤ 100 * (cap * difficultyTargetV11 * (n * (n + 1))) := Nat.mul_le_mul_left 100 hL
      _ = 100 * cap * (n * (n + 1) * difficultyTargetV11) := by ring
  unfold lwmaCore
  dsimp only
  rw [hK] at hfit ⊢
  -- `M = N (N + 1) T`, and `K = M * 97`
  generalize hM : n * (n + 1) * difficultyTargetV11 = M at hfit h200 ⊢
  split_ifs with hbig
  · -- `avg_D / (200 * L) * K`: the floor loses at most `K`, and `100 * cap * K < avg_D`
    set q := avgD / (200 * L)
    have hqK : q * (M * 97) ≤ avgD * M * 97 := by
      rw [Nat.mul_assoc avgD]
      exact Nat.mul_le_mul_right _ (Nat.div_le_self _ _)
    rw [Nat.mod_eq_of_lt (lt_of_le_of_lt hqK hfit)]
    have hq : avgD < 100 * cap * M * (q + 1) :=
      lt_of_lt_of_le (Nat.lt_mul_div_succ avgD (by omega)) (Nat.mul_le_mul_right _ h200)
    have hMX : M ≤ 2 * (n * n * difficultyTargetV11) := by
      have hn1 : n + 1 ≤ 2 * n ∨ n = 0 := by omega
      rw [← hM]
      rcases hn1 with hn1 | rfl
      · calc n * (n + 1) * difficultyTargetV11 ≤ n * (2 * n) * difficultyTargetV11 := by gcongr
          _ = 2 * (n * n * difficultyTargetV11) := by ring
      · simp
    have hcM : cap * M ≤ 5 * (2 * (n * n * difficultyTargetV11)) := Nat.mul_le_mul hcap hMX
    have hbig' : 2000000 * (n * n * difficultyTargetV11) < avgD := by
      rw [show 2000000 * (n * n * difficultyTargetV11) = 2000000 * n * n * difficultyTargetV11 by ring]
      exact hbig
    have e1 : 100 * cap * M * (q + 1) = 100 * (cap * M * q) + 100 * (cap * M) := by ring
    have e2 : 100 * cap * (q * (M * 97) + 1) = 9700 * (cap * M * q) + 100 * cap := by ring
    rw [e2]
    omega
  · -- the exact product, then the quotient: the floor loses less than one
    rw [Nat.mod_eq_of_lt hfit]
    have hq := Nat.lt_mul_div_succ (avgD * M * 97) (by omega : 0 < 200 * L)
    have hlt : avgD * 97 * M < 100 * cap * (avgD * M * 97 / (200 * L) + 1) * M :=
      calc avgD * 97 * M = avgD * M * 97 := by ring
        _ < 200 * L * (avgD * M * 97 / (200 * L) + 1) := hq
        _ ≤ 100 * cap * M * (avgD * M * 97 / (200 * L) + 1) := Nat.mul_le_mul_right _ h200
        _ = 100 * cap * (avgD * M * 97 / (200 * L) + 1) * M := by ring
    have := Nat.lt_of_mul_lt_mul_right hlt
    omega

/-- The guard against overflow comes too late. Below it the exact product can already pass
`2 ^ 64`, and `next_D` then wraps, losing at least `2 ^ 64 / (200 * L)`. With `N = 90` the product
wraps from `avg_D` of about `1.9 * 10 ^ 11` on, and the guard holds only from
`2000000 * N * N * T`, about `1.9 * 10 ^ 12`. -/
theorem lwmaCore_wraps_below_guard {n L avgD : ℕ}
    (hguard : avgD ≤ 2000000 * n * n * difficultyTargetV11)
    (hover : 2 ^ 64 ≤ avgD * n * (n + 1) * difficultyTargetV11 * 97) :
    lwmaCore n L avgD * (200 * L) + 2 ^ 64 ≤ avgD * n * (n + 1) * difficultyTargetV11 * 97 := by
  unfold lwmaCore
  dsimp only
  rw [if_neg (not_lt.mpr hguard)]
  generalize avgD * n * (n + 1) * difficultyTargetV11 * 97 = P at hover ⊢
  -- the wrap takes away a positive multiple of `2 ^ 64`
  have hsplit := Nat.mod_add_div P (2 ^ 64)
  have hwrapped : 0 < P / 2 ^ 64 := Nat.div_pos hover (by positivity)
  have hfloor := Nat.div_mul_le_self (P % 2 ^ 64) (200 * L)
  generalize P % 2 ^ 64 / (200 * L) * (200 * L) = q at hfloor ⊢
  generalize P / 2 ^ 64 = w at hsplit hwrapped
  have hmul : 2 ^ 64 ≤ 2 ^ 64 * w := Nat.le_mul_of_pos_right _ hwrapped
  omega

/-- At 90 steady blocks of difficulty `10 ^ 12`, under the guard, with `L` of solve times on
target. -/
theorem lwmaCore_wraps_below_guard_steady :
    10 ^ 12 ≤ 2000000 * 90 * 90 * difficultyTargetV11 ∧
      2 ^ 64 ≤ 10 ^ 12 * 90 * (90 + 1) * difficultyTargetV11 * 97 ∧
      lwmaCore 90 491400 (10 ^ 12) * (200 * 491400) + 2 ^ 64 ≤
        10 ^ 12 * 90 * (90 + 1) * difficultyTargetV11 * 97 :=
  ⟨by decide, by decide, lwmaCore_wraps_below_guard (by decide) (by decide)⟩

/-- The whole algorithm on that window asks for about 3% of the average difficulty. -/
example : nextDifficultyV16 ((List.range 91).map (difficultyTargetV11 * ·))
    ((List.range 91).map (10 ^ 12 * ·)) = 31500000120 := by
  decide +kernel

/-- The jump rule only raises `next_D`. -/
theorem le_jumpRule (ts : List ℕ) (n nextD prevD avgD : ℕ) : nextD ≤ jumpRule ts n nextD prevD avgD := by
  unfold jumpRule
  dsimp only
  split_ifs
  · exact le_max_left _ _
  · exact le_rfl

/-- The jump rule raises `next_D` to at most 105% of `avg_D`. -/
theorem jumpRule_le (ts : List ℕ) (n nextD prevD avgD : ℕ) :
    jumpRule ts n nextD prevD avgD ≤ max nextD (105 * avgD / 100) := by
  unfold jumpRule
  dsimp only
  split_ifs
  · exact max_le_max le_rfl ((min_le_right _ _).trans (Nat.div_le_div_right (Nat.mod_le _ _)))
  · exact le_max_left _ _

/-- The jump rule keeps a lower bound of `next_D`. -/
theorem jumpRule_lower {ts : List ℕ} {n c prevD avgD cap : ℕ} (hcore : 96 * avgD ≤ 100 * cap * (c + 1)) :
    96 * avgD ≤ 100 * cap * (jumpRule ts n c prevD avgD + 1) :=
  hcore.trans (Nat.mul_le_mul_left _ (Nat.add_le_add_right (le_jumpRule ts n c prevD avgD) 1))

/-- The jump rule keeps the upper bound of `lwmaCore_upper`: `105 * avg_D / 100` is below it. -/
theorem jumpRule_upper {ts : List ℕ} {n c prevD avgD : ℕ} (hcore : 10 * n * c ≤ 97 * (n + 1) * avgD) :
    10 * n * jumpRule ts n c prevD avgD ≤ 97 * (n + 1) * avgD := by
  rcases le_max_iff.mp (jumpRule_le ts n c prevD avgD) with hc | hjumped
  · exact (Nat.mul_le_mul_left _ hc).trans hcore
  · have h100 : n * (100 * jumpRule ts n c prevD avgD) ≤ n * (105 * avgD) :=
      Nat.mul_le_mul_left n (by omega)
    nlinarith [Nat.zero_le (n * avgD), Nat.zero_le avgD]

/-! ### The rounding and the last digits -/

/-- Rounding to a multiple of `i` with `i * 100 < next_D` moves `next_D` by at most half a
percent. The induction follows the loop down from `i = 10 ^ k`. -/
theorem roundInsignificantDigits_bounds (x : ℕ) : ∀ k : ℕ, x + 10 ^ k < 2 ^ 64 →
    199 * x ≤ 200 * roundInsignificantDigits x k ∧ 200 * roundInsignificantDigits x k ≤ 201 * x
  | 0, _ => by
    rw [roundInsignificantDigits]
    omega
  | k + 1, hx => by
    rw [roundInsignificantDigits]
    split_ifs with hbig
    · have hpos : 0 < 10 ^ (k + 1) := by positivity
      have heven : 10 ^ (k + 1) % 2 = 0 := by
        rw [pow_succ]
        omega
      rw [Nat.mod_eq_of_lt (by omega)]
      have hlo := Nat.lt_div_mul_add (a := x + 10 ^ (k + 1) / 2) hpos
      have hhi := Nat.div_mul_le_self (x + 10 ^ (k + 1) / 2) (10 ^ (k + 1))
      generalize (x + 10 ^ (k + 1) / 2) / 10 ^ (k + 1) * 10 ^ (k + 1) = r at hlo hhi ⊢
      generalize 10 ^ (k + 1) = i at *
      omega
    · have hpow : 10 ^ k ≤ 10 ^ (k + 1) := Nat.pow_le_pow_right (by norm_num) (Nat.le_succ k)
      exact roundInsignificantDigits_bounds x k (by omega)

/-- Setting the last three digits moves the difficulty by less than 1500. -/
theorem lastDigits_bounds (ts : List ℕ) (n r : ℕ) (hr : r + 1500 < 2 ^ 64) :
    lastDigits ts n r ≤ r + 1499 ∧ r ≤ lastDigits ts n r + 499 := by
  unfold lastDigits
  split_ifs with hbig
  · have hm := min_le_left 999 ((ts.getD n 0 - ts.getD (n - 10) 0) / 10)
    generalize min 999 ((ts.getD n 0 - ts.getD (n - 10) 0) / 10) = m at hm ⊢
    rw [Nat.mod_eq_of_lt (by omega : r + 500 < 2 ^ 64)]
    rw [Nat.mod_eq_of_lt (by omega : (r + 500) / 1000 * 1000 + m < 2 ^ 64)]
    omega
  · omega

/-! ### The whole algorithm -/

theorem ten_le_lwmaN {size : ℕ} (h : 10 < size) : 10 ≤ lwmaN size := by
  unfold lwmaN difficultyWindowV11
  split_ifs <;> omega

/-- With `N ≥ 10`, the fit of the exact product bounds `avg_D` alone. -/
theorem avgD_mul_lt {n avgD : ℕ} (hn : 10 ≤ n)
    (hfit : avgD * n * (n + 1) * difficultyTargetV11 * 97 < 2 ^ 64) : avgD * 1280400 < 2 ^ 64 :=
  calc avgD * 1280400 = avgD * 10 * (10 + 1) * 120 * 97 := by ring
    _ ≤ avgD * n * (n + 1) * 120 * 97 := by gcongr
    _ < 2 ^ 64 := hfit

/-- `next_D` is at most `97 (N + 1) / (10 N)` of `avg_D`: `L` is at least `6 * N * N`. -/
theorem lwmaCore_upper {n L avgD : ℕ} (hn : 0 < n) (hL : 6 * (n * n) ≤ L)
    (hfit : avgD * n * (n + 1) * difficultyTargetV11 * 97 < 2 ^ 64) :
    10 * n * lwmaCore n L avgD ≤ 97 * (n + 1) * avgD := by
  have hcore := lwmaCore_mul_le (L := L) hfit
  generalize lwmaCore n L avgD = c at hcore ⊢
  have h200 : c * (1200 * (n * n)) ≤ c * (200 * L) := Nat.mul_le_mul_left c (by omega)
  have hmul : 10 * n * c * (120 * n) ≤ 97 * (n + 1) * avgD * (120 * n) :=
    calc 10 * n * c * (120 * n) = c * (1200 * (n * n)) := by ring
      _ ≤ c * (200 * L) := h200
      _ ≤ avgD * n * (n + 1) * difficultyTargetV11 * 97 := hcore
      _ = 97 * (n + 1) * avgD * (120 * n) := by unfold difficultyTargetV11; ring
  exact Nat.le_of_mul_le_mul_right hmul (by omega)

/-- `next_D` is at most about `11 * avg_D`, so the rounding and the last digits do not wrap. -/
theorem rounding_add_lt {n avgD nextD : ℕ} (hn10 : 10 ≤ n) (havgD : avgD * 1280400 < 2 ^ 64)
    (hupper : 10 * n * nextD ≤ 97 * (n + 1) * avgD) :
    nextD + 10 ^ 9 < 2 ^ 64 ∧ roundInsignificantDigits nextD 9 + 1500 < 2 ^ 64 := by
  have hsmall : n * (10 * nextD) ≤ n * (107 * avgD) := by nlinarith
  have hsmall' := Nat.le_of_mul_le_mul_left hsmall (by omega)
  have hnext : nextD + 10 ^ 9 < 2 ^ 64 := by norm_num; omega
  have hround := roundInsignificantDigits_bounds nextD 9 hnext
  exact ⟨hnext, by omega⟩

/-- Past the startup, the next difficulty is the last-digit step on the rounded `next_D`, and that
`next_D` lies between `96 / (100 * cap)` and `97 (N + 1) / (10 N)` of `avg_D`, far enough from
`2 ^ 64` that the steps after it do not wrap. -/
theorem nextDifficultyLwma_spec {p : LwmaParams} {timestamps cumulativeDifficulties : List ℕ}
    {n avgD : ℕ} (hn : lwmaN timestamps.length = n) (havgD : lwmaAvgD n cumulativeDifficulties = avgD)
    (hstart : p.startupSize < timestamps.length)
    (hfit : avgD * n * (n + 1) * difficultyTargetV11 * 97 < 2 ^ 64) :
    ∃ nextD, nextDifficultyLwma p timestamps cumulativeDifficulties =
        lastDigits (clampTimestamps n timestamps) n (roundInsignificantDigits nextD 9) ∧
      96 * avgD ≤ 100 * p.solveTimeCap * (nextD + 1) ∧ 10 * n * nextD ≤ 97 * (n + 1) * avgD ∧
      nextD + 10 ^ 9 < 2 ^ 64 ∧ roundInsignificantDigits nextD 9 + 1500 < 2 ^ 64 := by
  have hn10 : 10 ≤ n := hn ▸ ten_le_lwmaN (lt_of_le_of_lt p.ten_le_startupSize hstart)
  rw [nextDifficultyLwma, if_neg (by omega)]
  dsimp only
  rw [hn, havgD]
  refine ⟨_, rfl, jumpRule_lower (lwmaCore_lower p.solveTimeCap_le_five (two_mul_lwmaL_le p _ n)
    (lt_of_lt_of_le (by positivity) (six_mul_le_lwmaL p _ n)) hfit), ?_⟩
  have hupper := @jumpRule_upper (clampTimestamps n timestamps) n _
    (Word64.sub (cumulativeDifficulties.getD n 0) (cumulativeDifficulties.getD (n - 1) 0)) avgD
    (lwmaCore_upper (by omega) (six_mul_le_lwmaL p (clampTimestamps n timestamps) n) hfit)
  exact ⟨hupper, rounding_add_lt hn10 (avgD_mul_lt hn10 hfit) hupper⟩

/-- The arithmetic that carries the bounds of `next_D` through the rounding (half a percent) and
the last digits (less than 1500). -/
theorem bounds_of_rounding {cap n avgD nextD r d : ℕ}
    (hlower : 96 * avgD ≤ 100 * cap * (nextD + 1)) (hupper : 10 * n * nextD ≤ 97 * (n + 1) * avgD)
    (hround : 199 * nextD ≤ 200 * r ∧ 200 * r ≤ 201 * nextD) (hlast : d ≤ r + 1499 ∧ r ≤ d + 499) :
    95 * avgD ≤ 100 * cap * (d + 500) ∧ n * d ≤ 10 * (n + 1) * avgD + 1500 * n := by
  constructor
  · have hlin : 199 * (nextD + 1) ≤ 200 * (d + 500) := by omega
    have hscaled := Nat.mul_le_mul_left (100 * cap) hlin
    have h200 : 200 * (95 * avgD) ≤ 200 * (100 * cap * (d + 500)) :=
      calc 200 * (95 * avgD) ≤ 199 * (96 * avgD) := by omega
        _ ≤ 199 * (100 * cap * (nextD + 1)) := Nat.mul_le_mul_left 199 hlower
        _ = 100 * cap * (199 * (nextD + 1)) := by ring
        _ ≤ 100 * cap * (200 * (d + 500)) := hscaled
        _ = 200 * (100 * cap * (d + 500)) := by ring
    exact Nat.le_of_mul_le_mul_left h200 (by norm_num)
  · have hr : n * (200 * r) ≤ n * (201 * nextD) := Nat.mul_le_mul_left n hround.2
    have hd : n * d ≤ n * (r + 1499) := Nat.mul_le_mul_left n hlast.1
    nlinarith [Nat.zero_le (n * avgD), Nat.zero_le avgD]

/-- For every window past the startup whose exact product `avg_D * N * (N + 1) * T * 97` fits in
64 bits, the next difficulty is at least `95 / (100 * cap)` of the window's average difficulty,
less 500, and at most `10 (N + 1) / N` times it, plus 1500. -/
theorem nextDifficultyLwma_bounds (p : LwmaParams) (timestamps cumulativeDifficulties : List ℕ)
    (hstart : p.startupSize < timestamps.length)
    (hfit : lwmaAvgD (lwmaN timestamps.length) cumulativeDifficulties * lwmaN timestamps.length *
      (lwmaN timestamps.length + 1) * difficultyTargetV11 * 97 < 2 ^ 64) :
    95 * lwmaAvgD (lwmaN timestamps.length) cumulativeDifficulties ≤
        100 * p.solveTimeCap * (nextDifficultyLwma p timestamps cumulativeDifficulties + 500) ∧
      lwmaN timestamps.length * nextDifficultyLwma p timestamps cumulativeDifficulties ≤
        10 * (lwmaN timestamps.length + 1) * lwmaAvgD (lwmaN timestamps.length) cumulativeDifficulties +
          1500 * lwmaN timestamps.length := by
  obtain ⟨nextD, hD, hlower, hupper, hnext, hrounded⟩ := nextDifficultyLwma_spec rfl rfl hstart hfit
  rw [hD]
  exact bounds_of_rounding hlower hupper (roundInsignificantDigits_bounds nextD 9 hnext)
    (lastDigits_bounds _ _ _ hrounded)

/-- A window of 17 blocks a target time apart, each of difficulty 1000000. -/
def steadyTimestamps : List ℕ := (List.range 17).map (difficultyTargetV11 * ·)

def steadyDifficulties : List ℕ := (List.range 17).map (1000000 * ·)

theorem nextDifficultyV16_bounds_steady :
    v16Params.startupSize < steadyTimestamps.length ∧
      lwmaAvgD (lwmaN steadyTimestamps.length) steadyDifficulties * lwmaN steadyTimestamps.length *
        (lwmaN steadyTimestamps.length + 1) * difficultyTargetV11 * 97 < 2 ^ 64 ∧
      95 * lwmaAvgD (lwmaN steadyTimestamps.length) steadyDifficulties ≤
        100 * v16Params.solveTimeCap * (nextDifficultyLwma v16Params steadyTimestamps steadyDifficulties + 500) ∧
      lwmaN steadyTimestamps.length * nextDifficultyLwma v16Params steadyTimestamps steadyDifficulties ≤
        10 * (lwmaN steadyTimestamps.length + 1) * lwmaAvgD (lwmaN steadyTimestamps.length) steadyDifficulties +
          1500 * lwmaN steadyTimestamps.length :=
  ⟨by decide, by decide, nextDifficultyLwma_bounds v16Params steadyTimestamps steadyDifficulties
    (by decide) (by decide)⟩

/-! ### The difficulty the chain asks for -/

section Chain

variable {η : Type} [DecidableEq η] {nullHash : η} {algs : DifficultyAlgorithms}

omit [DecidableEq η] in
/-- Past 17 blocks, the version-16 window holds more than 16 of them. -/
theorem startupSize_lt_length_difficultyWindow {chain : List (BlockInfo η)} (hlong : 17 < chain.length) :
    v16Params.startupSize < (difficultyWindow chain difficultyBlocksCountV16).length := by
  change 16 < _
  unfold difficultyWindow difficultyBlocksCountV16
  rw [List.length_drop]
  omega

/-- **The bounds on the chain.** From every state the difficulty cache reaches, through any
interleaving of added and popped blocks, resets and calls, the difficulty that
`get_difficulty_for_next_block` asks of a block of version 16 on lies within the bounds of
`nextDifficultyLwma_bounds` around the average difficulty of the last 90 blocks of the chain. -/
theorem getDifficultyForNextBlock_v16_bounds (hv16 : algs.v16 = nextDifficultyV16)
    {st : DifficultyState η} (hreach : DifficultyReachable nullHash algs st) {version : ℕ}
    (hversion : 16 ≤ version) (htop : ∀ top, st.chain.getLast? = some top → top.id ≠ nullHash)
    (hlong : 17 < st.chain.length)
    (hfit : lwmaAvgD (lwmaN (difficultyWindow st.chain difficultyBlocksCountV16).length)
        ((difficultyWindow st.chain difficultyBlocksCountV16).map BlockInfo.cumulativeDifficulty) *
      lwmaN (difficultyWindow st.chain difficultyBlocksCountV16).length *
      (lwmaN (difficultyWindow st.chain difficultyBlocksCountV16).length + 1) * difficultyTargetV11 * 97 <
        2 ^ 64) :
    95 * lwmaAvgD (lwmaN (difficultyWindow st.chain difficultyBlocksCountV16).length)
        ((difficultyWindow st.chain difficultyBlocksCountV16).map BlockInfo.cumulativeDifficulty) ≤
        300 * ((getDifficultyForNextBlock nullHash algs version st).1 + 500) ∧
      lwmaN (difficultyWindow st.chain difficultyBlocksCountV16).length *
          (getDifficultyForNextBlock nullHash algs version st).1 ≤
        10 * (lwmaN (difficultyWindow st.chain difficultyBlocksCountV16).length + 1) *
            lwmaAvgD (lwmaN (difficultyWindow st.chain difficultyBlocksCountV16).length)
              ((difficultyWindow st.chain difficultyBlocksCountV16).map BlockInfo.cumulativeDifficulty) +
          1500 * lwmaN (difficultyWindow st.chain difficultyBlocksCountV16).length := by
  -- the cache hands the version-16 algorithm the window of the current chain
  have hcount : getDifficultyBlocksCount version = difficultyBlocksCountV16 := by
    unfold getDifficultyBlocksCount
    split_ifs <;> omega
  rw [getDifficultyForNextBlock_spec hreach.cacheInv htop, hcount, DifficultyAlgorithms.ofBlocks,
    DifficultyAlgorithms.nextDifficulty, if_pos hversion, hv16, nextDifficultyV16]
  have hstart := startupSize_lt_length_difficultyWindow hlong
  generalize difficultyWindow st.chain difficultyBlocksCountV16 = window at hstart hfit ⊢
  have hbounds := nextDifficultyLwma_bounds v16Params (window.map BlockInfo.timestamp)
    (window.map BlockInfo.cumulativeDifficulty) (by simpa using hstart) (by simpa using hfit)
  simpa [show v16Params.solveTimeCap = 3 from rfl] using hbounds

end Chain

/-- The algorithms of the source from version 10 on; those of the earlier versions count the
timestamps. -/
def lwmaAlgorithms : DifficultyAlgorithms :=
  { countingAlgorithms with v16 := nextDifficultyV16, lwma4 := nextDifficultyLwma4 }

/-- 18 blocks a target time apart, each of difficulty 1000000. -/
def steadyChain : List (BlockInfo ℕ) := (List.range 18).map fun i => ⟨difficultyTargetV11 * i, 1000000 * i, i + 1⟩

theorem getDifficultyForNextBlock_v16_bounds_steady :
    lwmaAlgorithms.v16 = nextDifficultyV16 ∧ 17 < steadyChain.length ∧
      lwmaAvgD (lwmaN (difficultyWindow steadyChain difficultyBlocksCountV16).length)
          ((difficultyWindow steadyChain difficultyBlocksCountV16).map BlockInfo.cumulativeDifficulty) *
        lwmaN (difficultyWindow steadyChain difficultyBlocksCountV16).length *
        (lwmaN (difficultyWindow steadyChain difficultyBlocksCountV16).length + 1) * difficultyTargetV11 * 97 <
          2 ^ 64 ∧
      95 * lwmaAvgD (lwmaN (difficultyWindow steadyChain difficultyBlocksCountV16).length)
          ((difficultyWindow steadyChain difficultyBlocksCountV16).map BlockInfo.cumulativeDifficulty) ≤
          300 * ((getDifficultyForNextBlock 0 lwmaAlgorithms 16 (DifficultyState.init steadyChain)).1 + 500) ∧
        lwmaN (difficultyWindow steadyChain difficultyBlocksCountV16).length *
            (getDifficultyForNextBlock 0 lwmaAlgorithms 16 (DifficultyState.init steadyChain)).1 ≤
          10 * (lwmaN (difficultyWindow steadyChain difficultyBlocksCountV16).length + 1) *
              lwmaAvgD (lwmaN (difficultyWindow steadyChain difficultyBlocksCountV16).length)
                ((difficultyWindow steadyChain difficultyBlocksCountV16).map BlockInfo.cumulativeDifficulty) +
            1500 * lwmaN (difficultyWindow steadyChain difficultyBlocksCountV16).length :=
  ⟨rfl, by decide, by decide,
    getDifficultyForNextBlock_v16_bounds rfl (.init steadyChain (by decide) (by decide)) (le_refl 16)
      (by decide) (by decide) (by decide)⟩

end Arqma.Cryptonote

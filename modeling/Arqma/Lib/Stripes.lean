import Mathlib.Data.Nat.Notation
import Mathlib.Order.Bounds.Defs

/-!
# Chunks dealt round stripes

The heights `0, 1, 2, …` cut into chunks of `B` consecutive heights, and the chunks dealt
round `P` stripes in turn: height `x` lies in chunk `x / B`, and chunk `k` in stripe `k % P`.
A sequence stored by stripe keeps the heights of one stripe and drops the others.

`nextChunk P q t` is the first chunk after chunk `q` that lies in stripe `t`, when `q` lies
in another: in `q`'s own round of `P` chunks when `t` comes after `q`'s stripe, in the next
round otherwise. Its first height is the least height in stripe `t` at or above any height
of chunk `q` (`isLeast_nextChunk_mul`), and every height of a chunk lies in that chunk's
stripe (`div_eq_of_mem_chunk`).
-/

namespace Stripes

/-- The first chunk after chunk `q` in stripe `t`, for a `t` other than `q`'s stripe. -/
def nextChunk (P q t : ℕ) : ℕ := (q / P + if t > q % P then 0 else 1) * P + t

variable {B P q t : ℕ}

/-- Within the round of `P` chunks that starts at `c * P`, the stripe is the offset. -/
theorem mod_eq_of_round {c k : ℕ} (hlo : c * P ≤ k) (hhi : k < c * P + P) : k % P = k - c * P := by
  obtain ⟨j, rfl⟩ : ∃ j, k = c * P + j := ⟨k - c * P, by omega⟩
  have hj : j < P := by omega
  rw [Nat.mul_add_mod_of_lt hj]
  omega

theorem nextChunk_mod (ht : t < P) : nextChunk P q t % P = t := by
  unfold nextChunk
  rw [Nat.mul_add_mod_of_lt ht]

theorem lt_nextChunk (ht : t < P) : q < nextChunk P q t := by
  have hq := Nat.div_add_mod' q P
  have hr := Nat.mod_lt q (show 0 < P by omega)
  unfold nextChunk
  split
  · rw [Nat.add_zero]
    omega
  · rw [Nat.add_mul, Nat.one_mul]
    omega

/-- No chunk from `q` up to `nextChunk P q t` lies in stripe `t`. -/
theorem mod_ne_of_lt_nextChunk (ht : t < P) (hne : q % P ≠ t) {k : ℕ} (hqk : q ≤ k)
    (hk : k < nextChunk P q t) : k % P ≠ t := by
  have hq := Nat.div_add_mod' q P
  have hr := Nat.mod_lt q (show 0 < P by omega)
  unfold nextChunk at hk
  split at hk
  · -- `t` later in `q`'s round: `k` is between `q` and the chunk of stripe `t` there
    rw [Nat.add_zero] at hk
    rw [mod_eq_of_round (c := q / P) (by omega) (by omega)]
    omega
  · -- `t` earlier: `k` is in the rest of `q`'s round or early in the next one
    rw [Nat.add_mul, Nat.one_mul] at hk
    rcases Nat.lt_or_ge k (q / P * P + P) with hround | hnext
    · rw [mod_eq_of_round (c := q / P) (by omega) hround]
      omega
    · rw [mod_eq_of_round (c := q / P + 1) (by rw [Nat.add_mul, Nat.one_mul]; omega)
        (by rw [Nat.add_mul, Nat.one_mul]; omega), Nat.add_mul, Nat.one_mul]
      omega

/-- Every height from `h` up to the first one of the chunk that `h` lies in, plus one, lies in
`h`'s chunk. -/
theorem div_eq_of_mem_chunk {h x : ℕ} (hx : h ≤ x) (hxB : x < (h / B + 1) * B) :
    x / B = h / B :=
  Nat.div_eq_of_lt_le (Nat.le_trans (Nat.div_mul_le_self h B) hx) hxB

/-- A height that has the property is the least one at or above itself that has it. -/
theorem isLeast_self {h : ℕ} {p : ℕ → Prop} (hp : p h) : IsLeast {x | h ≤ x ∧ p x} h :=
  ⟨⟨Nat.le_refl h, hp⟩, fun _ hx => hx.1⟩

/-- The first height of `nextChunk` is the least height at or above `h` in stripe `t`, for an
`h` in another stripe. -/
theorem isLeast_nextChunk_mul {h : ℕ} (hB : 0 < B) (ht : t < P) (hne : h / B % P ≠ t) :
    IsLeast {x | h ≤ x ∧ x / B % P = t} (nextChunk P (h / B) t * B) := by
  refine ⟨⟨?_, ?_⟩, ?_⟩
  · exact Nat.le_of_lt ((Nat.div_lt_iff_lt_mul hB).mp (lt_nextChunk ht))
  · rw [Nat.mul_div_cancel _ hB]
    exact nextChunk_mod ht
  · rintro x ⟨hx, hxt⟩
    refine Nat.le_of_not_lt fun hlt => ?_
    exact mod_ne_of_lt_nextChunk ht hne (Nat.div_le_div_right hx) ((Nat.div_lt_iff_lt_mul hB).mpr hlt) hxt

end Stripes

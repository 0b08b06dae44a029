import PeerNet.Random.ChaCha
import PeerNet.Scalar

/-!
# Random draws

What generators and simulations draw from a source of random words: longer
words, numbers between zero and one, weighted choices, indices below a bound
and shuffled lists. Each draw also gives the source that is left.

An index is drawn again as long as its word misses a zone, which no number of
draws is sure to end. Here the draws of one index are cut off after 4096 misses.
A word misses with a chance below one half, so no seed is known that gets there,
and what is proved of shuffles holds of any indices that are drawn.
-/

set_option autoImplicit false

namespace PeerNet

class RandomSource (G : Type) where
  word : G → UInt32 × G

instance : RandomSource Random.Stream where
  word := Random.Stream.next

namespace RandomSource

variable {G : Type} [RandomSource G] {R : Type} [Scalar R]

def longWord (source : G) : UInt64 × G :=
  let (low, source) := word source
  let (high, source) := word source
  ((high.toUInt64 <<< 32) ||| low.toUInt64, source)

def fraction (source : G) : R × G :=
  let (word, source) := longWord source
  (Scalar.ofNat (word >>> 11).toNat / Scalar.ofNat 0x20000000000000, source)

/-- True with a given probability. Certainty draws nothing; else a word is
compared with the probability's share of all 64-bit words. -/
def chance (probability : R) (source : G) : Bool × G :=
  if probability == 1.0 then (true, source)
  else
    let (word, source) := longWord source
    (word < Scalar.whole (probability * Scalar.ofNat UInt64.size), source)

def leadingZeros (word : UInt32) : UInt32 :=
  if word = 0 then 32 else 31 - word.log2

/-- Draws until a word falls in the zone that covers every index below the
bound equally often, as more than half of all words do. The loop itself has no
limit: the cut after `attempts` misses, where the next word counts whatever it
is, makes it total. -/
def indexWithin (bound zone : UInt32) : Nat → G → Nat × G
  | 0, source =>
    let (word, source) := word source
    ((word.toUInt64 * bound.toUInt64 >>> 32).toNat, source)
  | attempts + 1, source =>
    let (word, source) := word source
    let product := word.toUInt64 * bound.toUInt64
    if product.toUInt32 ≤ zone then ((product >>> 32).toNat, source)
    else indexWithin bound zone attempts source

def index (bound : Nat) (source : G) : Nat × G :=
  let bound := UInt32.ofNat bound
  indexWithin bound ((bound <<< leadingZeros bound) - 1) 4096 source

/-- Swaps the item at each place, from `last` down to the second, with one drawn
from the places up to it. -/
def shuffleFrom {α : Type} : Nat → Array α → G → Array α × G
  | 0, items, source => (items, source)
  | last + 1, items, source =>
    let (other, source) := index (last + 2) source
    shuffleFrom last (items.swapIfInBounds (last + 1) other) source

def shuffle {α : Type} (items : List α) (source : G) : List α × G :=
  let (items, source) := shuffleFrom (items.length - 1) items.toArray source
  (items.toList, source)

end RandomSource

end PeerNet

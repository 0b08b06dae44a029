/-!
# The ChaCha word stream

A stream of 32-bit words from a 256-bit key: the ChaCha block function with
twelve rounds, a 64-bit block counter that starts at zero, and a zero nonce. A
stream can also be started from a 64-bit seed, which is stretched to a key.
-/

set_option autoImplicit false

namespace PeerNet.Random

abbrev Block := Vector UInt32 16

namespace Block

@[inline] def rotate (word : UInt32) (places : UInt32) : UInt32 :=
  (word <<< places) ||| (word >>> (32 - places))

@[inline] def quarterRound (block : Block) (a b c d : Fin 16) : Block :=
  let block := block.set a (block[a] + block[b])
  let block := block.set d (rotate (block[d] ^^^ block[a]) 16)
  let block := block.set c (block[c] + block[d])
  let block := block.set b (rotate (block[b] ^^^ block[c]) 12)
  let block := block.set a (block[a] + block[b])
  let block := block.set d (rotate (block[d] ^^^ block[a]) 8)
  let block := block.set c (block[c] + block[d])
  block.set b (rotate (block[b] ^^^ block[c]) 7)

def doubleRound (block : Block) : Block :=
  let block := block.quarterRound 0 4 8 12
  let block := block.quarterRound 1 5 9 13
  let block := block.quarterRound 2 6 10 14
  let block := block.quarterRound 3 7 11 15
  let block := block.quarterRound 0 5 10 15
  let block := block.quarterRound 1 6 11 12
  let block := block.quarterRound 2 7 8 13
  block.quarterRound 3 4 9 14

def doubleRounds : Nat → Block → Block
  | 0, block => block
  | count + 1, block => doubleRounds count block.doubleRound

/-- The block before mixing: four constants, the key, the counter and a zero
nonce. -/
def initial (key : Vector UInt32 8) (counter : UInt64) : Block :=
  #v[0x61707865, 0x3320646e, 0x79622d32, 0x6b206574,
    key[0], key[1], key[2], key[3], key[4], key[5], key[6], key[7],
    counter.toUInt32, (counter >>> 32).toUInt32, 0, 0]

def words (key : Vector UInt32 8) (counter : UInt64) : List UInt32 :=
  let start := initial key counter
  let mixed := doubleRounds 6 start
  (Vector.zipWith (· + ·) start mixed).toList

end Block

/-- A word stream: its key, the counter of the next block, and what is left of
the current one. -/
structure Stream where
  key : Vector UInt32 8
  counter : UInt64
  pending : List UInt32
  deriving DecidableEq, Repr

namespace Stream

def stretch (state : UInt64) : UInt64 :=
  state * 6364136223846793005 + 11634580027462260723

def stretchedWord (state : UInt64) : UInt32 :=
  let mixed := (((state >>> 18) ^^^ state) >>> 27).toUInt32
  let places := (state >>> 59).toUInt32
  (mixed >>> places) ||| (mixed <<< ((32 - places) % 32))

def stretchedWords : Nat → UInt64 → List UInt32
  | 0, _ => []
  | count + 1, state => stretchedWord (stretch state) :: stretchedWords count (stretch state)

def ofSeed (seed : UInt64) : Stream :=
  { key := Vector.ofFn fun i : Fin 8 => (stretchedWords 8 seed).getD i 0
    counter := 0
    pending := [] }

def next (stream : Stream) : UInt32 × Stream :=
  match stream.pending with
  | word :: pending => (word, { stream with pending })
  | [] =>
    let words := Block.words stream.key stream.counter
    (words.headD 0, { stream with counter := stream.counter + 1, pending := words.tail })

end Stream

end PeerNet.Random

import Epidemic.Random.Source

/-!
# The seeded source: a ChaCha key stream of twelve rounds

The stream of words belonging to a 64-bit seed. The seed is stretched to a 256-bit key by a linear
congruential generator with permuted output; block after block of the key stream is then read as
64-bit words, low half first.
-/

namespace Epidemic.Random

/-- The sixteen 32-bit words of a cipher block. -/
abbrev Block := Vector UInt32 16

namespace Block

/-- Rotation of a 32-bit word to the left. -/
def rotateLeft (word : UInt32) (count : UInt32) : UInt32 :=
  (word <<< count) ||| (word >>> (32 - count))

/-- One quarter round on four positions of the block. -/
def quarterRound (block : Block) (a b c d : Fin 16) : Block :=
  let va := block[a] + block[b]
  let vd := rotateLeft (block[d] ^^^ va) 16
  let vc := block[c] + vd
  let vb := rotateLeft (block[b] ^^^ vc) 12
  let va := va + vb
  let vd := rotateLeft (vd ^^^ va) 8
  let vc := vc + vd
  let vb := rotateLeft (vb ^^^ vc) 7
  (((block.set a va).set b vb).set c vc).set d vd

/-- A column round and a diagonal round. -/
def doubleRound (block : Block) : Block :=
  let block := block.quarterRound 0 4 8 12
  let block := block.quarterRound 1 5 9 13
  let block := block.quarterRound 2 6 10 14
  let block := block.quarterRound 3 7 11 15
  let block := block.quarterRound 0 5 10 15
  let block := block.quarterRound 1 6 11 12
  let block := block.quarterRound 2 7 8 13
  block.quarterRound 3 4 9 14

/-- Applies the double round the given number of times. -/
def doubleRounds : Nat → Block → Block
  | 0, block => block
  | count + 1, block => doubleRounds count block.doubleRound

/-- The block of a key stream: the scrambled input block added to the input block. -/
def stream (input : Block) : Block :=
  Vector.zipWith (· + ·) (doubleRounds 6 input) input

/-- Neighbouring words joined, the first being the low half. -/
def joinHalves : List UInt32 → List UInt64
  | low :: high :: rest => (high.toUInt64 <<< 32 ||| low.toUInt64) :: joinHalves rest
  | _ => []

end Block

/-- A position in the key stream of a seed. -/
structure Cipher where
  /-- The 256-bit key. -/
  key : Vector UInt32 8
  /-- The number of the next block. -/
  counter : UInt64
  /-- The words of the current block that were not drawn yet. -/
  words : List UInt64

namespace Cipher

/-- The key words of a seed: eight times the state is stepped, and its upper bits are folded and
rotated by the topmost five. -/
def keyWords : Nat → UInt64 → List UInt32
  | 0, _ => []
  | count + 1, state =>
    let state := state * 6364136223846793005 + 11634580027462260723
    let folded := (((state >>> 18) ^^^ state) >>> 27).toUInt32
    let turn := (state >>> 59).toUInt32
    ((folded >>> turn) ||| (folded <<< ((32 - turn) % 32))) :: keyWords count state

/-- A key word list has the length that was asked for. -/
theorem length_keyWords (count : Nat) (state : UInt64) : (keyWords count state).length = count := by
  induction count generalizing state with
  | zero => rfl
  | succ count ih => simp only [keyWords, List.length_cons, ih]

/-- The key stream of a seed, from its beginning. -/
def ofSeed (seed : UInt64) : Cipher where
  key := ⟨(keyWords 8 seed).toArray, by simp only [List.size_toArray, length_keyWords]⟩
  counter := 0
  words := []

/-- The four words with which every input block begins. -/
def constants : Vector UInt32 4 :=
  #v[0x61707865, 0x3320646e, 0x79622d32, 0x6b206574]

/-- The input block: four constant words, the key, the block counter and an empty nonce. -/
def inputBlock (cipher : Cipher) : Block :=
  constants ++ cipher.key ++
    (#v[cipher.counter.toUInt32, (cipher.counter >>> 32).toUInt32, 0, 0] : Vector UInt32 4)

/-- The next word of the key stream. -/
def next (cipher : Cipher) : UInt64 × Cipher :=
  match cipher.words with
  | word :: rest => (word, { cipher with words := rest })
  | [] =>
    let fresh := Block.joinHalves cipher.inputBlock.stream.toList
    (fresh.headD 0, { cipher with counter := cipher.counter + 1, words := fresh.tail })

end Cipher

instance : Source Cipher where
  next := Cipher.next

end Epidemic.Random

/-!
# The random generator

ChaCha with eight rounds as a generator of 32-bit words: the words of block zero, block one, and
so on. The key is expanded from a seed of 64 bits.
-/

namespace Fleet.Random

/-- The state of the block function. -/
abbrev Words := Vector UInt32 16

/-- A word rotated to the left. -/
def rotate (x : UInt32) (n : UInt32) : UInt32 := (x <<< n) ||| (x >>> (32 - n))

/-- The quarter round on four words of the state. -/
def quarterRound (s : Words) (a b c d : Fin 16) : Words :=
  let xa := s.get a + s.get b
  let xd := rotate (s.get d ^^^ xa) 16
  let xc := s.get c + xd
  let xb := rotate (s.get b ^^^ xc) 12
  let xa := xa + xb
  let xd := rotate (xd ^^^ xa) 8
  let xc := xc + xd
  let xb := rotate (xb ^^^ xc) 7
  (((s.set a xa).set b xb).set c xc).set d xd

/-- Two rounds: the columns, then the diagonals. -/
def doubleRound (s : Words) : Words :=
  let s := quarterRound s 0 4 8 12
  let s := quarterRound s 1 5 9 13
  let s := quarterRound s 2 6 10 14
  let s := quarterRound s 3 7 11 15
  let s := quarterRound s 0 5 10 15
  let s := quarterRound s 1 6 11 12
  let s := quarterRound s 2 7 8 13
  quarterRound s 3 4 9 14

/-- A key of eight words. -/
abbrev Key := Vector UInt32 8

/-- The state a block starts from: constants, key, number of the block, and zeros. -/
def blockStart (key : Key) (block : UInt64) : Words :=
  (#v[0x61707865, 0x3320646e, 0x79622d32, 0x6b206574] : Vector UInt32 4) ++ key
    ++ (#v[block.toUInt32, (block >>> 32).toUInt32, 0, 0] : Vector UInt32 4)

/-- The words of a block. -/
def blockWords (key : Key) (block : UInt64) : Words :=
  let start := blockStart key block
  Vector.zipWith (· + ·) (doubleRound (doubleRound (doubleRound (doubleRound start)))) start

/-- One step of the sequence that seeds keys. -/
def seedStep (s : UInt64) : UInt64 := s * 6364136223846793005 + 11634580027462260723

/-- The word that a state of the seeding sequence gives. -/
def seedWord (s : UInt64) : UInt32 :=
  let x := (((s >>> 18) ^^^ s) >>> 27).toUInt32
  let n := (s >>> 59).toUInt32
  (x >>> n) ||| (x <<< ((32 - n) % 32))

/-- The key that a seed expands to. -/
def seedKey (seed : UInt64) : Key :=
  Vector.ofFn fun i => seedWord (Nat.repeat seedStep (i.val + 1) seed)

end Random

/-- **The state of the generator:** the block that comes next and the words that are left of the
one before. -/
structure Random where
  key : Random.Key
  nextBlock : UInt64 := 0
  words : List UInt32 := []

namespace Random

/-- The generator with a given seed. -/
def seeded (seed : UInt64) : Random := { key := seedKey seed }

/-- A seed for a part of a simulation, made from the seed of the whole. -/
def deriveSeed (seed part : UInt64) : UInt64 := (seed * 0x517cc1b727220a95) ^^^ part

/-- **The next word.** -/
def next (r : Random) : UInt32 × Random :=
  match r.words with
  | w :: rest => (w, { r with words := rest })
  | [] =>
    let block := blockWords r.key r.nextBlock
    (block.head, { r with nextBlock := r.nextBlock + 1, words := block.toList.tail })

end Fleet.Random

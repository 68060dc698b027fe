/-! # Streams of random words

Two streams of sixty-four-bit words. A listed stream gives its words in order and then the
multiples of an odd constant. A seeded stream is the output of ChaCha with twelve rounds, whose
key is spread from the seed by a linear congruential generator with permuted output. -/

namespace TimingStats.Random

/-- The odd integer nearest to 2^64 divided by the golden ratio. -/
def goldenStep : UInt64 := 0x9e3779b97f4a7c15

/-- Four words of a block, which pass through a round side by side. -/
structure Row where
  a : UInt32
  b : UInt32
  c : UInt32
  d : UInt32
  deriving DecidableEq, Repr

namespace Row

def add (x y : Row) : Row := ⟨x.a + y.a, x.b + y.b, x.c + y.c, x.d + y.d⟩

def rotateWord (w n : UInt32) : UInt32 := w <<< n ||| w >>> (32 - n)

/-- Exclusive or, then a rotation of each word to the left. -/
def mix (x y : Row) (n : UInt32) : Row :=
  ⟨rotateWord (x.a ^^^ y.a) n, rotateWord (x.b ^^^ y.b) n, rotateWord (x.c ^^^ y.c) n,
    rotateWord (x.d ^^^ y.d) n⟩

def turn1 (x : Row) : Row := ⟨x.b, x.c, x.d, x.a⟩
def turn2 (x : Row) : Row := ⟨x.c, x.d, x.a, x.b⟩
def turn3 (x : Row) : Row := ⟨x.d, x.a, x.b, x.c⟩

def toList (x : Row) : List UInt32 := [x.a, x.b, x.c, x.d]

end Row

/-- The sixteen words of a cipher block, in four rows. -/
structure Block where
  first : Row
  second : Row
  third : Row
  fourth : Row
  deriving DecidableEq, Repr

namespace Block

/-- The quarter rounds of the four columns. -/
def columnRound (x : Block) : Block :=
  let a := x.first.add x.second
  let d := x.fourth.mix a 16
  let c := x.third.add d
  let b := x.second.mix c 12
  let a := a.add b
  let d := d.mix a 8
  let c := c.add d
  let b := b.mix c 7
  ⟨a, b, c, d⟩

/-- The quarter rounds of the four diagonals. -/
def diagonalRound (x : Block) : Block :=
  let y := columnRound ⟨x.first, x.second.turn1, x.third.turn2, x.fourth.turn3⟩
  ⟨y.first, y.second.turn3, y.third.turn2, y.fourth.turn1⟩

def rounds : Nat → Block → Block
  | 0, x => x
  | n + 1, x => rounds n x.columnRound.diagonalRound

/-- The words of a cipher block after twelve rounds. -/
def output (x : Block) : List UInt32 :=
  let y := rounds 6 x
  (y.first.add x.first).toList ++ (y.second.add x.second).toList ++
    (y.third.add x.third).toList ++ (y.fourth.add x.fourth).toList

end Block

/-- The two rows of a cipher key. -/
structure Key where
  upper : Row
  lower : Row
  deriving DecidableEq, Repr

namespace Key

/-- One step of the congruential generator. -/
def advance (state : UInt64) : UInt64 := state * 6364136223846793005 + 11634580027462260723

/-- The permuted output of a state: folded, shortened, and rotated by its highest bits. -/
def permuted (state : UInt64) : UInt32 :=
  let x := ((state >>> 18 ^^^ state) >>> 27).toUInt32
  let r := (state >>> 59).toUInt32
  if r = 0 then x else x >>> r ||| x <<< (32 - r)

def ofSeed (seed : UInt64) : Key :=
  let s1 := advance seed
  let s2 := advance s1
  let s3 := advance s2
  let s4 := advance s3
  let s5 := advance s4
  let s6 := advance s5
  let s7 := advance s6
  let s8 := advance s7
  ⟨⟨permuted s1, permuted s2, permuted s3, permuted s4⟩,
    ⟨permuted s5, permuted s6, permuted s7, permuted s8⟩⟩

def block (key : Key) (counter : UInt64) : Block :=
  ⟨⟨0x61707865, 0x3320646e, 0x79622d32, 0x6b206574⟩, key.upper, key.lower,
    ⟨counter.toUInt32, (counter >>> 32).toUInt32, 0, 0⟩⟩

end Key

def joinPairs : List UInt32 → List UInt64
  | low :: high :: rest => (low.toUInt64 ||| high.toUInt64 <<< 32) :: joinPairs rest
  | _ => []

inductive WordStream where
  /-- The words to come, then the multiples of the constant, of which the last was `last`. -/
  | listed (words : List UInt64) (last : UInt64)
  /-- The words left of the current block, and the number of the next block. -/
  | seeded (key : Key) (left : List UInt64) (counter : UInt64)
  deriving Repr

namespace WordStream

def ofList (words : List UInt64) : WordStream := .listed words 0

def ofSeed (seed : UInt64) : WordStream := .seeded (Key.ofSeed seed) [] 0

def next : WordStream → UInt64 × WordStream
  | .listed (w :: ws) last => (w, .listed ws last)
  | .listed [] last => (last + goldenStep, .listed [] (last + goldenStep))
  | .seeded key (w :: ws) counter => (w, .seeded key ws counter)
  | .seeded key [] counter =>
    match joinPairs (key.block counter).output with
    | w :: ws => (w, .seeded key ws (counter + 1))
    | [] => (0, .seeded key [] (counter + 1))

def take : Nat → WordStream → List UInt64
  | 0, _ => []
  | n + 1, s => let (w, s) := s.next; w :: take n s

end WordStream
end TimingStats.Random

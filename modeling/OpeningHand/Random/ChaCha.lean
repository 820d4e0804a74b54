/-!
# The ChaCha stream with eight rounds

A block is sixteen words of 32 bits in four rows. A round works on the four columns at once, so it is
written with rows: adding, mixing and rotating act on all four lanes. Rotating the rows against each
other turns diagonals into columns, and two rounds, one on the columns and one on the diagonals, make
a double round.

A stream has a key of eight words and numbers its blocks from zero. Each block gives eight draws of 64
bits, each from two successive words with the low word first.
-/

namespace OpeningHand.ChaCha

/-- Four words, one in each lane. -/
structure Row where
  x : UInt32
  y : UInt32
  z : UInt32
  w : UInt32
deriving DecidableEq, Repr

namespace Row

def add (a b : Row) : Row :=
  ⟨a.x + b.x, a.y + b.y, a.z + b.z, a.w + b.w⟩

/-- Each lane of the lanewise exclusive or, rotated left by `count` bits; `count` is from 1 to 31. -/
def mix (a b : Row) (count : UInt32) : Row :=
  let lane (s t : UInt32) : UInt32 :=
    let u := s ^^^ t
    (u <<< count) ||| (u >>> (32 - count))
  ⟨lane a.x b.x, lane a.y b.y, lane a.z b.z, lane a.w b.w⟩

def turn (a : Row) : Row :=
  ⟨a.y, a.z, a.w, a.x⟩

def draws (a : Row) : UInt64 × UInt64 :=
  (a.x.toUInt64 ||| a.y.toUInt64 <<< 32, a.z.toUInt64 ||| a.w.toUInt64 <<< 32)

end Row

/-- A block, or the state from which it is computed. -/
structure Block where
  a : Row
  b : Row
  c : Row
  d : Row
deriving DecidableEq, Repr

namespace Block

def add (s t : Block) : Block :=
  ⟨s.a.add t.a, s.b.add t.b, s.c.add t.c, s.d.add t.d⟩

def columnRound (s : Block) : Block :=
  let a := s.a.add s.b
  let d := s.d.mix a 16
  let c := s.c.add d
  let b := s.b.mix c 12
  let a := a.add b
  let d := d.mix a 8
  let c := c.add d
  let b := b.mix c 7
  ⟨a, b, c, d⟩

def doubleRound (s : Block) : Block :=
  let s := s.columnRound
  let s := columnRound ⟨s.a, s.b.turn, s.c.turn.turn, s.d.turn.turn.turn⟩
  ⟨s.a, s.b.turn.turn.turn, s.c.turn.turn, s.d.turn⟩

/-- Eight rounds, and the sum with the state they started from. -/
def scramble (s : Block) : Block :=
  s.doubleRound.doubleRound.doubleRound.doubleRound.add s

def draws (s : Block) : UInt64 × List UInt64 :=
  (s.a.draws.1, [s.a.draws.2, s.b.draws.1, s.b.draws.2, s.c.draws.1, s.c.draws.2, s.d.draws.1,
    s.d.draws.2])

end Block

structure Key where
  low : Row
  high : Row
deriving DecidableEq, Repr

/-- The first row of every state: the ASCII codes of "expand 32-byte k", four to a word. -/
def constants : Row :=
  ⟨0x61707865, 0x3320646e, 0x79622d32, 0x6b206574⟩

def Key.block (key : Key) (number : UInt64) : Block :=
  Block.scramble
    ⟨constants, key.low, key.high, ⟨number.toUInt32, (number >>> 32).toUInt32, 0, 0⟩⟩

/-- One step of the generator that spreads a seed over the words of a key. -/
def seedStep (state : UInt64) : UInt64 :=
  state * 6364136223846793005 + 11634580027462260723

/-- The word that a state of that generator stands for: some of its bits, rotated to the right by as
many places as its top five bits say. -/
def seedWord (state : UInt64) : UInt32 :=
  let word := (((state >>> 18) ^^^ state) >>> 27).toUInt32
  let count := (state >>> 59).toUInt32
  (word >>> count) ||| (word <<< ((32 - count) % 32))

def Key.ofSeed (seed : UInt64) : Key :=
  let s1 := seedStep seed
  let s2 := seedStep s1
  let s3 := seedStep s2
  let s4 := seedStep s3
  let s5 := seedStep s4
  let s6 := seedStep s5
  let s7 := seedStep s6
  let s8 := seedStep s7
  ⟨⟨seedWord s1, seedWord s2, seedWord s3, seedWord s4⟩,
    ⟨seedWord s5, seedWord s6, seedWord s7, seedWord s8⟩⟩

end OpeningHand.ChaCha

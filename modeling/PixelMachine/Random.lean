/-! The random source: a block cipher's key stream under a key that a seed expands to. -/
namespace PixelMachine

/-- The stream's key and how many of its words have been used. -/
structure Generator where
  key : List UInt32
  used : Nat := 0
  deriving DecidableEq, Repr

namespace Generator

/-- The words of a key from a seed: a linear congruential sequence, permuted. -/
def expandSeed : Nat → UInt64 → List UInt32
  | 0, _ => []
  | count + 1, state =>
    let state := state * 6364136223846793005 + 11634580027462260723
    let mixed := (((state >>> 18) ^^^ state) >>> 27).toUInt32
    let turn := (state >>> 59).toUInt32
    ((mixed >>> turn) ||| (mixed <<< ((32 - turn) % 32))) :: expandSeed count state

/-- The source of a seed. -/
def ofSeed (seed : UInt64) : Generator := ⟨expandSeed 8 seed, 0⟩

/-- Rotates a word to the left, by less than its width. -/
def rotate (w : UInt32) (n : UInt32) : UInt32 := (w <<< n) ||| (w >>> (32 - n))

/-- Four words of the cipher's state. -/
structure Quad where
  a : UInt32
  b : UInt32
  c : UInt32
  d : UInt32

/-- Mixes four words. -/
def Quad.mix (q : Quad) : Quad :=
  let a := q.a + q.b
  let d := rotate (q.d ^^^ a) 16
  let c := q.c + d
  let b := rotate (q.b ^^^ c) 12
  let a := a + b
  let d := rotate (d ^^^ a) 8
  let c := c + d
  let b := rotate (b ^^^ c) 7
  ⟨a, b, c, d⟩

/-- The state by columns. -/
structure Square where
  p : Quad
  q : Quad
  r : Quad
  s : Quad

/-- One round on columns and one on diagonals. -/
def Square.doubleRound (m : Square) : Square :=
  let p := m.p.mix
  let q := m.q.mix
  let r := m.r.mix
  let s := m.s.mix
  let p' := (Quad.mk p.a q.b r.c s.d).mix
  let q' := (Quad.mk q.a r.b s.c p.d).mix
  let r' := (Quad.mk r.a s.b p.c q.d).mix
  let s' := (Quad.mk s.a p.b q.c r.d).mix
  ⟨⟨p'.a, s'.b, r'.c, q'.d⟩, ⟨q'.a, p'.b, s'.c, r'.d⟩, ⟨r'.a, q'.b, p'.c, s'.d⟩,
    ⟨s'.a, r'.b, q'.c, p'.d⟩⟩

/-- Several double rounds. -/
def Square.rounds : Nat → Square → Square
  | 0, m => m
  | n + 1, m => Square.rounds n m.doubleRound

/-- The words of the state, row after row. -/
def Square.words (m : Square) : List UInt32 :=
  [m.p.a, m.q.a, m.r.a, m.s.a, m.p.b, m.q.b, m.r.b, m.s.b,
   m.p.c, m.q.c, m.r.c, m.s.c, m.p.d, m.q.d, m.r.d, m.s.d]

/-- A word of the key. -/
def keyWord (g : Generator) (i : Nat) : UInt32 := g.key.getD i 0

/-- The sixteen words of a block: six double rounds on constants, key and block number, added to
what they started from. -/
def block (g : Generator) (number : Nat) : List UInt32 :=
  let start : Square :=
    ⟨⟨0x61707865, g.keyWord 0, g.keyWord 4, number.toUInt32⟩,
     ⟨0x3320646e, g.keyWord 1, g.keyWord 5, (number / 4294967296).toUInt32⟩,
     ⟨0x79622d32, g.keyWord 2, g.keyWord 6, 0⟩,
     ⟨0x6b206574, g.keyWord 3, g.keyWord 7, 0⟩⟩
  List.zipWith (· + ·) (Square.rounds 6 start).words start.words

/-- A word of the stream. -/
def word (g : Generator) (i : Nat) : UInt64 := ((g.block (i / 16)).getD (i % 16) 0).toUInt64

/-- A sample between zero and one, from the upper 53 bits of two words. -/
def sample (g : Generator) : Float × Generator :=
  let bits := g.word g.used ||| (g.word (g.used + 1) <<< 32)
  ((bits >>> 11).toFloat / 9007199254740992.0, { g with used := g.used + 2 })

end Generator

end PixelMachine

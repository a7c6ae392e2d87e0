namespace PbesLab.Sampling

structure Row where
  a : UInt32
  b : UInt32
  c : UInt32
  d : UInt32

namespace Row

@[inline] def zip (f : UInt32 → UInt32 → UInt32) (x y : Row) : Row :=
  ⟨f x.a y.a, f x.b y.b, f x.c y.c, f x.d y.d⟩

@[inline] def map (f : UInt32 → UInt32) (x : Row) : Row :=
  ⟨f x.a, f x.b, f x.c, f x.d⟩

/-- Moves every word one column to the left. -/
def turn (x : Row) : Row :=
  ⟨x.b, x.c, x.d, x.a⟩

def toList (x : Row) : List UInt32 :=
  [x.a, x.b, x.c, x.d]

end Row

@[inline] def rotateLeft (n : UInt32) (x : UInt32) : UInt32 :=
  (x <<< n) ||| (x >>> (32 - n))

def rotateRight (n : UInt32) (x : UInt32) : UInt32 :=
  (x >>> n) ||| (x <<< (32 - n))

structure State where
  first : Row
  second : Row
  third : Row
  fourth : Row

namespace State

def zip (f : UInt32 → UInt32 → UInt32) (x y : State) : State :=
  ⟨x.first.zip f y.first, x.second.zip f y.second, x.third.zip f y.third,
    x.fourth.zip f y.fourth⟩

def toList (x : State) : List UInt32 :=
  x.first.toList ++ x.second.toList ++ x.third.toList ++ x.fourth.toList

/-- The quarter round in all four columns. -/
def columns (s : State) : State :=
  let a := s.first.zip (· + ·) s.second
  let d := (s.fourth.zip (· ^^^ ·) a).map (rotateLeft 16)
  let c := s.third.zip (· + ·) d
  let b := (s.second.zip (· ^^^ ·) c).map (rotateLeft 12)
  let a := a.zip (· + ·) b
  let d := (d.zip (· ^^^ ·) a).map (rotateLeft 8)
  let c := c.zip (· + ·) d
  let b := (b.zip (· ^^^ ·) c).map (rotateLeft 7)
  ⟨a, b, c, d⟩

/-- Brings the diagonals into the columns. -/
def skew (s : State) : State :=
  ⟨s.first, s.second.turn, s.third.turn.turn, s.fourth.turn.turn.turn⟩

def unskew (s : State) : State :=
  ⟨s.first, s.second.turn.turn.turn, s.third.turn.turn, s.fourth.turn⟩

def doubleRound (s : State) : State :=
  s.columns.skew.columns.unskew

end State

structure Key where
  low : Row
  high : Row

namespace Key

/-- The text "expand 32-byte k" as four words. -/
def constants : Row :=
  ⟨0x61707865, 0x3320646e, 0x79622d32, 0x6b206574⟩

def initial (k : Key) (counter : UInt64) : State :=
  ⟨constants, k.low, k.high, ⟨counter.toUInt32, (counter >>> 32).toUInt32, 0, 0⟩⟩

def block (k : Key) (counter : Nat) : List UInt32 :=
  let s := k.initial (UInt64.ofNat counter)
  ((Nat.repeat State.doubleRound 6 s).zip (· + ·) s).toList

def word (k : Key) (i : Nat) : UInt32 :=
  (k.block (i / 16)).getD (i % 16) 0

def seedStep (s : UInt64) : UInt64 :=
  s * 6364136223846793005 + 11634580027462260723

def seedWord (s : UInt64) : UInt32 :=
  rotateRight (s >>> 59).toUInt32 (((s >>> 18) ^^^ s) >>> 27).toUInt32

def seedRow (s : UInt64) : Row × UInt64 :=
  let s1 := seedStep s
  let s2 := seedStep s1
  let s3 := seedStep s2
  let s4 := seedStep s3
  (⟨seedWord s1, seedWord s2, seedWord s3, seedWord s4⟩, s4)

def ofSeed (seed : UInt64) : Key :=
  let (low, s) := seedRow seed
  ⟨low, (seedRow s).1⟩

end Key

end PbesLab.Sampling

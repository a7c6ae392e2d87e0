import PbesLab.Sampling.Keystream

namespace PbesLab.Sampling

/-- A stream of words and how many of them are used up. -/
structure Draws where
  word : Nat → UInt32
  used : Nat

def Draws.ofSeed (seed : UInt64) : Draws :=
  ⟨(Key.ofSeed seed).word, 0⟩

abbrev Rand := StateM Draws

def next32 : Rand Nat := fun s =>
  ((s.word s.used).toNat, { s with used := s.used + 1 })

/-- Two words, the low one first. -/
def next64 : Rand Nat := do
  let low ← next32
  let high ← next32
  return low + high <<< 32

def flip : Rand Bool := do
  return 0x80000000 ≤ (← next32)

structure Odds where
  threshold : Nat

def Odds.fifth : Odds := ⟨3689348814741910528⟩

def Odds.threeTenths : Odds := ⟨5534023222112865280⟩

def chance (o : Odds) : Rand Bool := do
  return (← next64) < o.threshold

inductive Width
  | bits32
  | bits64

def Width.bits : Width → Nat
  | bits32 => 32
  | bits64 => 64

def Width.size (w : Width) : Nat :=
  1 <<< w.bits

def Width.next : Width → Rand Nat
  | bits32 => next32
  | bits64 => next64

/-- Values of the low half up to here are accepted, so that all results are equally likely. -/
def Width.zone (w : Width) (n : Nat) : Nat :=
  (n <<< (w.bits - (n.log2 + 1)) - 1) % w.size

/-- A number below a positive `n`: the high half of a product whose low half is accepted. At least
half of all words are. If the bound on the number of rejections is met all the same, the number is
0, which is below `n` as well. -/
def Width.below (w : Width) (n : Nat) : Nat → Rand Nat
  | 0 => return 0
  | tries + 1 => do
    let m := (← w.next) * n
    if m % w.size ≤ w.zone n then return m / w.size
    else w.below n tries

def maxTries : Nat := 4096

def below32 (n : Nat) : Rand Nat :=
  Width.bits32.below n maxTries

def below64 (n : Nat) : Rand Nat :=
  Width.bits64.below n maxTries

def choose? {α : Type} (xs : List α) : Rand (Option α) := do
  if xs.isEmpty then return none
  return xs[← below32 xs.length]?

/-- Exchanges each of the first entries, from the last on, with one not after it. -/
def shuffleFirst {α : Type} : Nat → Array α → Rand (Array α)
  | 0, xs => return xs
  | i + 1, xs => do
    if i = 0 then return xs
    shuffleFirst i (xs.swapIfInBounds i (← below32 (i + 1)))

def shuffle {α : Type} (xs : List α) : Rand (List α) := do
  return (← shuffleFirst xs.length xs.toArray).toList

/-- Inserts a number not in the list at the end; one that is there is preceded by `j`. -/
def addSample (j t : Nat) (chosen : List Nat) : List Nat :=
  match chosen.idxOf? t with
  | some q => chosen.insertIdx q j
  | none => chosen ++ [t]

/-- `count` different numbers below `n`. -/
def sample (n count : Nat) : Rand (List Nat) :=
  ((List.range count).map (n - count + ·)).foldlM
    (fun chosen j => return addSample j (← below32 (j + 1)) chosen) []

end PbesLab.Sampling

import PbesLab.Shrink.Reduction
import PbesLab.EqSystem.Check
import PbesLab.Log

namespace PbesLab

/-- A test with a state, and where to note the progress. `true` means that the test passes. -/
structure Probe (σ ε : Type) where
  passes : EqSystem → σ → Except ε Bool × σ
  note : LogLine → σ → σ

structure Search where
  name : String
  current : EqSystem
  attempts : Nat

namespace Search

def start (name : String) (s : EqSystem) : Search :=
  ⟨name, s, 0⟩

def smaller (s : EqSystem) : List { q : EqSystem // q.weight < s.weight } :=
  s.reductions.filterMap fun q =>
    if h : q.weight < s.weight then
      match q.check with
      | .ok _ => some ⟨q, h⟩
      | .error _ => none
    else none

inductive Ending (α ε : Type)
  | exhausted
  | found (x : α)
  | broken (e : ε)

variable {σ ε α : Type}

/-- Tests systems in turn up to the first that fails. Counts the tests, also one that breaks. -/
def sweep (p : Probe σ ε) (sys : α → EqSystem) : List α → Nat → σ → Ending α ε × Nat × σ
  | [], n, st => (.exhausted, n, st)
  | q :: qs, n, st =>
    match p.passes (sys q) st with
    | (.error e, st) => (.broken e, n + 1, st)
    | (.ok false, st) => (.found q, n + 1, st)
    | (.ok true, st) => sweep p sys qs (n + 1) st

/-- Moves on to the first smaller system that fails until there is none. -/
def descend (p : Probe σ ε) (m : Search) (st : σ) : Except ε EqSystem × Search × σ :=
  match sweep p Subtype.val (smaller m.current) m.attempts st with
  | (.broken e, n, st) => (.error e, { m with attempts := n }, st)
  | (.exhausted, n, st) => (.ok m.current, { m with attempts := n }, st)
  | (.found q, n, st) =>
    descend p { m with current := q.val, attempts := n }
      (p.note ⟨.search, .debug, "reduced counterexample to size " ++ toString q.val.size⟩ st)
termination_by (m.current.weight.size, m.current.weight.leaves)
decreasing_by exact Prod.lex_def.mpr q.property

def run (p : Probe σ ε) (m : Search) (st : σ) : Except ε EqSystem × Search × σ :=
  let st := p.note ⟨.search, .info, "minimizing " ++ m.name ++ " counterexample of size " ++
    toString m.current.size⟩ st
  match descend p m st with
  | (.error e, m, st) => (.error e, m, st)
  | (.ok s, m, st) =>
    (.ok s, m, p.note ⟨.search, .info, "minimized to size " ++ toString m.current.size ++
      " after " ++ toString m.attempts ++ " attempts"⟩ st)

def resultName (m : Search) : String :=
  m.name ++ "_minimized.txt"

end Search

end PbesLab

import PbesLab.Sampling.Generator
import PbesLab.Shrink.Search
import PbesLab.Trial.Session

namespace PbesLab

/-- The files of a test, named after it. -/
def sourceName (name : String) : String :=
  name ++ ".txt"

def concreteName (name : String) : String :=
  name ++ "a.pbes"

def abstractedName (name : String) : String :=
  name ++ "b.pbes"

variable {τ : Type}

/-- Solves a system before and after abstraction. Without a result of the abstraction there is only
one answer. -/
def Tools.test (tools : Tools τ) (s : EqSystem) (name : String) (strategy : Strategy) :
    Action (Session τ) Outcome := do
  let source ← Session.register (sourceName name)
  Session.onBench (Bench.change (·.writeText source s.text))
  let concrete ← Session.register (concreteName name)
  let abstracted ← Session.register (abstractedName name)
  Session.onBench (tools.convert source concrete)
  let done ← Session.onBench (tools.abstract concrete abstracted strategy)
  let before ← Session.onBench (tools.solve concrete)
  let after ← if done then Session.onBench (tools.solve abstracted) else pure none
  Session.onBench (Bench.say .trial .info (name ++ " " ++ strategy.text ++ " " ++
    answerText before ++ " " ++ answerText after))
  return .ofAnswers before after

def Tools.probe (tools : Tools τ) (name : String) (strategy : Strategy) :
    Probe (Session τ) Failure where
  passes q s := (do
    let outcome ← tools.test q (name ++ "_minimize") strategy
    return outcome.passed : Action (Session τ) Bool) s
  note line s := s.tell line

def Search.write (m : Search) (dir : Path) : Action (Bench τ) Path := do
  let target := dir.join ⟨m.resultName⟩
  Bench.change (·.writeText target m.current.text)
  Bench.say .search .info ("wrote minimized counterexample to " ++ target.text)
  return target

def Tools.minimize (tools : Tools τ) (s : EqSystem) (name : String) (strategy : Strategy) :
    Action (Session τ) EqSystem := fun st =>
  match (Search.start name s).run (tools.probe name strategy) st with
  | (.error e, _, st) => (.error e, st)
  | (.ok small, m, st) => (do
      let _ ← Session.onBench (m.write st.registry.dir)
      return small : Action (Session τ) EqSystem) st

/-- What a series of tests does. Without a strategy the iterations take turns. -/
structure Plan where
  iterations : Nat
  settings : Sampling.Settings
  strategy : Option Strategy
  minimize : Bool
  name : String

def Plan.strategyAt (plan : Plan) (i : Nat) : Strategy :=
  plan.strategy.getD (.forIteration i)

/-- Tests freshly drawn systems until one fails. -/
def Tools.iterate (tools : Tools τ) (plan : Plan) :
    Nat → Nat → Sampling.Draws → Action (Session τ) Unit
  | 0, _, _ => return
  | left + 1, i, draws => do
    let (s, draws) := Sampling.generate plan.settings draws
    let outcome ← tools.test s plan.name (plan.strategyAt i)
    if outcome.passed then tools.iterate plan left (i + 1) draws
    else
      if plan.minimize then
        let _ ← tools.minimize s plan.name (plan.strategyAt i)
      throw (.testFailed (sourceName plan.name))

def Tools.runSeries (tools : Tools τ) (keepFiles : Bool) (plan : Plan) (draws : Sampling.Draws) :
    Action (Session τ) Unit :=
  Session.finishing keepFiles (tools.iterate plan plan.iterations 0 draws)

/-- Makes a system small if the test fails on it. -/
def Tools.checkAndMinimize (tools : Tools τ) (keepFiles : Bool) (s : EqSystem) (name : String)
    (strategy : Strategy) : Action (Session τ) (Option EqSystem) :=
  Session.finishing keepFiles do
    let outcome ← tools.test s (name ++ "_check") strategy
    Session.onBench (Bench.say .trial .info (name ++ ": " ++ outcome.text))
    if outcome.passed then return none
    return some (← tools.minimize s name strategy)

end PbesLab

import PbesLab.EqSystem.Basic
import Mathlib.Data.List.Forall2
import Mathlib.Data.List.Nodup
import Mathlib.Logic.Function.Basic
import Mathlib.Logic.Relation

namespace PbesLab

/-- Numbers have no bound of their own. -/
inductive Value
  | nat (n : Nat)
  | bool (b : Bool)
deriving DecidableEq

def Value.sort : Value → DataSort
  | nat _ => .nat
  | bool _ => .bool

abbrev Valuation := String → Value

/-- Operators have a value on operands of the sorts that they take. -/
def DataOp.apply? : DataOp → Value → Value → Option Value
  | plus, .nat m, .nat n => some (.nat (m + n))
  | less, .nat m, .nat n => some (.bool (m < n))
  | greater, .nat m, .nat n => some (.bool (n < m))
  | equal, x, y => if x.sort = y.sort then some (.bool (x = y)) else none
  | _, _, _ => none

def DataExpr.eval (ρ : Valuation) : DataExpr → Option Value
  | var x => some (ρ x)
  | nat n => some (.nat n.toNat)
  | bool b => some (.bool b)
  | binary op l r => do
    let x ← l.eval ρ
    let y ← r.eval ρ
    op.apply? x y

/-- The condition under which a value matters to a quantifier. -/
def Quantifier.guard? : Quantifier → Formula → Option DataExpr
  | all, .bin .imp (.val d) _ => some d
  | ex, .bin .and (.val d) _ => some d
  | _, _ => none

/-- With the values of `ρ` a formula asks for the instance `i`, whose variables have those of `ρ'`.
A quantified variable takes all values of its sort that satisfy the guard. -/
inductive Formula.Asks : Formula → Valuation → Instance → Valuation → Prop
  | inst (i : Instance) (ρ : Valuation) : Asks (.inst i) ρ i ρ
  | neg {f ρ i ρ'} (body : Asks f ρ i ρ') : Asks (.neg f) ρ i ρ'
  | left {op l r ρ i ρ'} (side : Asks l ρ i ρ') : Asks (.bin op l r) ρ i ρ'
  | right {op l r ρ i ρ'} (side : Asks r ρ i ρ') : Asks (.bin op l r) ρ i ρ'
  | quant {q v f ρ i ρ'} (x : Value) (sort : x.sort = v.sort)
      (guard : ∀ d ∈ q.guard? f, d.eval (Function.update ρ v.name x) = some (.bool true))
      (body : Asks f (Function.update ρ v.name x) i ρ') : Asks (.quant q v f) ρ i ρ'

structure GroundInstance where
  name : String
  args : List Value

def Instance.Denotes (i : Instance) (ρ : Valuation) (g : GroundInstance) : Prop :=
  i.name = g.name ∧ List.Forall₂ (fun d x => d.eval ρ = some x) i.args g.args

namespace EqSystem

def Unfolds (s : EqSystem) (g g' : GroundInstance) : Prop :=
  ∃ e ∈ s.equations, e.name = g.name ∧ ∃ ρ : Valuation, g.args = e.params.map (fun p => ρ p.name) ∧
    ∃ i ρ', e.rhs.Asks ρ i ρ' ∧ i.Denotes ρ' g'

def Reaches (s : EqSystem) (g : GroundInstance) : Prop :=
  ∃ ρ start, s.init.Denotes ρ start ∧ Relation.ReflTransGen s.Unfolds start g

end EqSystem

/-- A value of the sort, a number being at most two. -/
def Value.Small : Value → DataSort → Prop
  | nat n, .nat => n ≤ 2
  | bool _, .bool => True
  | _, _ => False

def SmallArgs (params : List VarDecl) (args : List DataExpr) (ρ : Valuation) : Prop :=
  List.Forall₂ (fun p d => ∃ x, d.eval ρ = some x ∧ x.Small p.sort) params args

/-- The instance has small arguments for the equation of its name. -/
def EqSystem.KeepsSmall (s : EqSystem) (i : Instance) (ρ : Valuation) : Prop :=
  ∃ e ∈ s.equations, e.name = i.name ∧ SmallArgs e.params i.args ρ

theorem Value.Small.le {n : Nat} {sort : DataSort} (h : (nat n).Small sort) : n ≤ 2 := by
  cases sort with
  | nat => exact h
  | bool => exact h.elim

theorem Value.small_of_lt {x : Value} {ρ : Valuation} {name : String} {bound : UInt32}
    (hbound : bound.toNat = 3) (hsort : x.sort = .nat)
    (h : (DataExpr.binary .less (.var name) (.nat bound)).eval (Function.update ρ name x) =
      some (.bool true)) : x.Small .nat := by
  cases x with
  | bool b => cases hsort
  | nat n =>
    have hlt : n < 3 := by
      simpa [DataExpr.eval, DataOp.apply?, hbound] using h
    exact Nat.le_of_lt_succ hlt

/-- Small arguments denote small values. -/
theorem SmallArgs.small {params : List VarDecl} {args : List DataExpr} {ρ : Valuation}
    {values : List Value} (h : SmallArgs params args ρ)
    (hvalues : List.Forall₂ (fun d x => d.eval ρ = some x) args values) :
    List.Forall₂ (fun p x => x.Small p.sort) params values := by
  induction h generalizing values with
  | nil =>
    cases hvalues
    exact .nil
  | cons hd _ ih =>
    cases hvalues with
    | cons hx hrest =>
      obtain ⟨x, heval, hsmall⟩ := hd
      rw [hx] at heval
      obtain rfl := Option.some.inj heval
      exact .cons hsmall (ih hrest)

namespace EqSystem

variable {s : EqSystem} {g g' : GroundInstance}

def SmallAt (s : EqSystem) (g : GroundInstance) : Prop :=
  ∃ e ∈ s.equations, e.name = g.name ∧ List.Forall₂ (fun p x => x.Small p.sort) e.params g.args

theorem KeepsSmall.smallAt {i : Instance} {ρ : Valuation} (h : s.KeepsSmall i ρ)
    (hg : i.Denotes ρ g) : s.SmallAt g := by
  obtain ⟨e, he, hname, hargs⟩ := h
  exact ⟨e, he, hname.trans hg.1, hargs.small hg.2⟩

/-- One step. There is one equation of a name, so the values are small for the one that unfolds. -/
theorem Unfolds.smallAt (hnames : (s.equations.map Equation.name).Nodup)
    (hrhs : ∀ e ∈ s.equations, ∀ ρ : Valuation, (∀ p ∈ e.params, (ρ p.name).Small p.sort) →
      ∀ i ρ', e.rhs.Asks ρ i ρ' → s.KeepsSmall i ρ')
    (h : s.Unfolds g g') (hg : s.SmallAt g) : s.SmallAt g' := by
  obtain ⟨e, he, hname, ρ, hvalues, i, ρ', hasks, hdenotes⟩ := h
  obtain ⟨e', he', hname', hsmall⟩ := hg
  obtain rfl : e' = e := List.inj_on_of_nodup_map hnames he' he (hname'.trans hname.symm)
  rw [hvalues, List.forall₂_map_right_iff, List.forall₂_same] at hsmall
  exact (hrhs e' he' ρ hsmall i ρ' hasks).smallAt hdenotes

theorem Reaches.smallAt (hnames : (s.equations.map Equation.name).Nodup)
    (hrhs : ∀ e ∈ s.equations, ∀ ρ : Valuation, (∀ p ∈ e.params, (ρ p.name).Small p.sort) →
      ∀ i ρ', e.rhs.Asks ρ i ρ' → s.KeepsSmall i ρ')
    (hinit : ∀ ρ, s.KeepsSmall s.init ρ) (h : s.Reaches g) : s.SmallAt g := by
  obtain ⟨ρ, start, hstart, hsteps⟩ := h
  induction hsteps with
  | refl => exact (hinit ρ).smallAt hstart
  | tail _ hstep ih => exact hstep.smallAt hnames hrhs ih

end EqSystem

end PbesLab

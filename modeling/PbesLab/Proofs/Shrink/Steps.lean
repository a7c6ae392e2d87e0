import PbesLab.Proofs.Formula.Preorder
import PbesLab.Proofs.Lists
import PbesLab.Proofs.Shrink.Rewriting

namespace PbesLab

namespace Formula

variable {name : String} {f f' g t u : Formula}

/-- What a subterm may give way to: a constant, an operand, or the body of a quantifier that binds
nothing. -/
inductive Reduces : Formula → Formula → Prop
  | const (t : Formula) (b : Bool) : Reduces t (const b)
  | operand (f : Formula) : Reduces (neg f) f
  | left (op : Connective) (l r : Formula) : Reduces (bin op l r) l
  | right (op : Connective) (l r : Formula) : Reduces (bin op l r) r
  | body (q : Quantifier) {v : VarDecl} {f : Formula} (hv : v.name ∉ f.freeVars) :
      Reduces (quant q v f) f

theorem reduces_of_mem_parts (hu : u ∈ t.parts) : t.Reduces u := by
  cases t with
  | const b | val d | inst x => cases hu
  | neg f =>
    obtain rfl : u = f := List.mem_singleton.mp hu
    exact .operand u
  | bin op l r =>
    rw [parts, List.mem_pair] at hu
    rcases hu with rfl | rfl
    · exact .left op u r
    · exact .right op l u
  | quant q v f =>
    by_cases hv : v.name ∈ f.freeVars
    · rw [parts, if_pos hv] at hu
      cases hu
    · rw [parts, if_neg hv] at hu
      obtain rfl : u = f := List.mem_singleton.mp hu
      exact .body q hv

theorem mem_reductions_iff : u ∈ t.reductions ↔ t.Reduces u ∧ u ≠ t := by
  rw [reductions, List.mem_filter, decide_eq_true_eq]
  refine and_congr_left fun _ => ⟨?_, ?_⟩
  · intro hu
    rcases List.mem_append.mp hu with hu | hu
    · rcases List.mem_pair.mp hu with rfl | rfl
      · exact .const t true
      · exact .const t false
    · exact reduces_of_mem_parts hu
  · intro hu
    apply List.mem_append.mpr
    cases hu with
    | const t b => cases b <;> simp
    | operand f => exact .inr List.mem_cons_self
    | left op l r => exact .inr List.mem_cons_self
    | right op l r => exact .inr (List.mem_cons_of_mem _ List.mem_cons_self)
    | body q hv =>
      rw [parts, if_neg hv]
      exact .inr List.mem_cons_self

/-- `g` stands in the place of every instance of a name, and all else is the same. -/
inductive Exchanged (name : String) (g : Formula) : Formula → Formula → Prop
  | const (b : Bool) : Exchanged name g (const b) (const b)
  | val (d : DataExpr) : Exchanged name g (val d) (val d)
  | named {x : Instance} (hx : x.name = name) : Exchanged name g (inst x) g
  | other {x : Instance} (hx : x.name ≠ name) : Exchanged name g (inst x) (inst x)
  | neg {f f' : Formula} (h : Exchanged name g f f') : Exchanged name g (neg f) (neg f')
  | bin (op : Connective) {l l' r r' : Formula} (hl : Exchanged name g l l')
      (hr : Exchanged name g r r') : Exchanged name g (bin op l r) (bin op l' r')
  | quant (q : Quantifier) (v : VarDecl) {f f' : Formula} (h : Exchanged name g f f') :
      Exchanged name g (quant q v f) (quant q v f')

theorem exchanged_substitute (name : String) (g f : Formula) :
    Exchanged name g f (substitute name g f) := by
  induction f with
  | const b => exact .const b
  | val d => exact .val d
  | inst x =>
    by_cases hx : x.name = name
    · rw [substitute, if_pos hx]
      exact .named hx
    · rw [substitute, if_neg hx]
      exact .other hx
  | neg f ih => exact .neg ih
  | bin op l r ihl ihr => exact .bin op ihl ihr
  | quant q v f ih => exact .quant q v ih

theorem exchanged_iff : Exchanged name g f f' ↔ substitute name g f = f' := by
  constructor
  · intro h
    induction h with
    | const b | val d => rfl
    | named hx => rw [substitute, if_pos hx]
    | other hx => rw [substitute, if_neg hx]
    | neg h ih | quant q v h ih => rw [substitute, ih]
    | bin op hl hr ihl ihr => rw [substitute, ihl, ihr]
  · rintro rfl
    exact exchanged_substitute name g f

end Formula

namespace EqSystem

variable {s q : EqSystem}

/-- The equations of a name are gone, the others follow each other as before, and in their
right-hand sides a constant stands in the place of every instance of the name. -/
structure Removes (name : String) (value : Bool) (s q : EqSystem) : Prop where
  equations : List.Forall₂
    (fun e e' => ∃ f, Formula.Exchanged name (.const value) e.rhs f ∧ e' = { e with rhs := f })
    (s.equations.filter (·.name ≠ name)) q.equations
  init : q.init = s.init

theorem removes_iff {name : String} {value : Bool} :
    s.Removes name value q ↔ q = s.remove name value := by
  have hentry (e e' : Equation) :
      (∃ f, Formula.Exchanged name (.const value) e.rhs f ∧ e' = { e with rhs := f }) ↔
        { e with rhs := .substitute name (.const value) e.rhs } = e' := by
    simp only [Formula.exchanged_iff, exists_eq_left']
    exact eq_comm
  constructor
  · rintro ⟨hequations, hinit⟩
    simp only [hentry] at hequations
    rw [← List.forall₂_map_left_iff, List.forall₂_eq_eq_eq] at hequations
    obtain ⟨equations, init⟩ := q
    rw [remove, ← hinit, hequations]
  · rintro rfl
    refine ⟨?_, rfl⟩
    simp only [hentry]
    rw [← List.forall₂_map_left_iff, List.forall₂_eq_eq_eq, remove]

theorem mem_removals_iff : q ∈ s.removals ↔
    ∃ e ∈ s.equations, e.name ≠ s.init.name ∧ ∃ value, s.Removes e.name value q := by
  rw [removals, List.mem_flatMap]
  refine exists_congr fun e => ?_
  rw [List.mem_filter, decide_eq_true_eq, and_assoc, List.mem_pair, Bool.exists_bool, removes_iff,
    removes_iff, or_comm]

theorem mem_reducts_iff : q ∈ s.reducts ↔ s.Rewrites (fun t u => t.Reduces u ∧ u ≠ t) q := by
  have hsteps : (fun t u : Formula => u ∈ t.reductions) = fun t u => t.Reduces u ∧ u ≠ t := by
    funext t u
    exact propext Formula.mem_reductions_iff
  rw [mem_reducts_iff_rewrites, hsteps]

/-- The list of steps holds just what is one step by structure: an equation on which the system does
not start is gone with all of its name, or one subterm of one right-hand side has given way. No
position that is tried lies outside its right-hand side. -/
theorem mem_reductions_iff_step (s : EqSystem) :
    (∀ q, q ∈ s.reductions ↔
      (∃ e ∈ s.equations, e.name ≠ s.init.name ∧ ∃ value, s.Removes e.name value q) ∨
        s.Rewrites (fun t u => t.Reduces u ∧ u ≠ t) q) ∧
      ∀ e ∈ s.equations, ∀ i < e.rhs.size, ∃ t, e.rhs.subterm? i = some t := by
  constructor
  · intro q
    rw [reductions, List.mem_append, mem_removals_iff, mem_reducts_iff]
  · intro e _ i hi
    exact Formula.exists_subterm? hi

/-- A quantifier that binds nothing, in an equation on which the system does not start:
`nu X = Y && X; mu Y = forall b: Bool. X; init X;`. -/
def idleBinderSystem : EqSystem where
  equations := [⟨.nu, "X", [], .bin .and (.inst ⟨"Y", []⟩) (.inst ⟨"X", []⟩)⟩,
    ⟨.mu, "Y", [], .quant .all ⟨"b", .bool⟩ (.inst ⟨"X", []⟩)⟩]
  init := ⟨"X", []⟩

theorem idleBinderSystem_steps :
    ⟨[⟨.nu, "X", [], .bin .and (.const true) (.inst ⟨"X", []⟩)⟩], ⟨"X", []⟩⟩ ∈
        idleBinderSystem.reductions ∧
      ⟨[⟨.nu, "X", [], .bin .and (.inst ⟨"Y", []⟩) (.inst ⟨"X", []⟩)⟩,
        ⟨.mu, "Y", [], .inst ⟨"X", []⟩⟩], ⟨"X", []⟩⟩ ∈ idleBinderSystem.reductions := by
  obtain ⟨hstep, -⟩ := mem_reductions_iff_step idleBinderSystem
  constructor
  · apply (hstep _).mpr
    refine .inl ⟨⟨.mu, "Y", [], .quant .all ⟨"b", .bool⟩ (.inst ⟨"X", []⟩)⟩, by decide, by decide,
      true, ?_, rfl⟩
    have hother : "X" ≠ "Y" := by decide
    exact .cons ⟨_, .bin .and (.named rfl) (.other hother), rfl⟩ .nil
  · apply (hstep _).mpr
    have hbody : (Formula.quant .all ⟨"b", .bool⟩ (.inst ⟨"X", []⟩)).Reduces (.inst ⟨"X", []⟩) :=
      .body .all (by decide)
    exact .inr (@Rewrites.intro _ [_] _ [] _ .hole _ _ ⟨hbody, by decide⟩ rfl)

end EqSystem

end PbesLab

import PbesLab.Proofs.Formula.Leaves
import PbesLab.Proofs.Shrink.Steps
import PbesLab.Proofs.Shrink.Termination

namespace PbesLab

variable {σ ε : Type}

namespace Formula

/-- What is left of a formula: some of its instances and some of its quantifiers, in their order. -/
structure Pruned (f g : Formula) : Prop where
  instances : g.instances.Sublist f.instances
  binders : g.binders.Sublist f.binders

variable {f g h t u : Formula}

theorem Pruned.refl (f : Formula) : f.Pruned f :=
  ⟨.refl _, .refl _⟩

theorem Pruned.trans (hfg : f.Pruned g) (hgh : g.Pruned h) : f.Pruned h :=
  ⟨hgh.instances.trans hfg.instances, hgh.binders.trans hfg.binders⟩

theorem Pruned.bin (op : Connective) {l l' r r' : Formula} (hl : l.Pruned l') (hr : r.Pruned r') :
    (bin op l r).Pruned (bin op l' r') :=
  ⟨hl.instances.append hr.instances, hl.binders.append hr.binders⟩

theorem Pruned.quant (q : Quantifier) (v : VarDecl) (hf : f.Pruned g) :
    (quant q v f).Pruned (quant q v g) :=
  ⟨hf.instances, hf.binders.cons_cons v⟩

theorem Reduces.pruned (h : t.Reduces u) : t.Pruned u := by
  cases h with
  | const t b => exact ⟨List.nil_sublist _, List.nil_sublist _⟩
  | operand f => exact ⟨.refl _, .refl _⟩
  | left op l r => exact ⟨List.sublist_append_left _ _, List.sublist_append_left _ _⟩
  | right op l r => exact ⟨List.sublist_append_right _ _, List.sublist_append_right _ _⟩
  | body q hv => exact ⟨.refl _, List.sublist_cons_self _ _⟩

theorem Pruned.fill (C : Context) (h : t.Pruned u) : (C.fill t).Pruned (C.fill u) := by
  induction C with
  | hole => exact h
  | neg C ih => exact ⟨ih.instances, ih.binders⟩
  | left op C r ih => exact ih.bin op (.refl r)
  | right op l C ih => exact .bin op (.refl l) ih
  | quant q v C ih => exact ih.quant q v

theorem Exchanged.pruned {name : String} {b : Bool} (h : Exchanged name (.const b) f g) :
    f.Pruned g := by
  induction h with
  | const b | val d | other hx => exact .refl _
  | named hx => exact ⟨List.nil_sublist _, .refl _⟩
  | neg h ih => exact ⟨ih.instances, ih.binders⟩
  | bin op hl hr ihl ihr => exact ihl.bin op ihr
  | quant q v h ih => exact ih.quant q v

end Formula

namespace Equation

/-- The same equation with less on its right-hand side. -/
structure Pruned (e e' : Equation) : Prop where
  fixpoint : e'.fixpoint = e.fixpoint
  name : e'.name = e.name
  params : e'.params = e.params
  rhs : e.rhs.Pruned e'.rhs

theorem Pruned.refl (e : Equation) : e.Pruned e :=
  ⟨rfl, rfl, rfl, .refl _⟩

theorem Pruned.trans {e e' e'' : Equation} (h : e.Pruned e') (h' : e'.Pruned e'') :
    e.Pruned e'' :=
  ⟨h'.fixpoint.trans h.fixpoint, h'.name.trans h.name, h'.params.trans h.params,
    h.rhs.trans h'.rhs⟩

theorem Pruned.of_rhs {e : Equation} {f : Formula} (h : e.rhs.Pruned f) :
    e.Pruned { e with rhs := f } :=
  ⟨rfl, rfl, rfl, h⟩

/-- Leaving out names leaves out the same entries on both sides. -/
theorem forall₂_pruned_filter {es es' : List Equation} (h : List.Forall₂ Pruned es es')
    (gone : List String) :
    List.Forall₂ Pruned (es.filter (·.name ∉ gone)) (es'.filter (·.name ∉ gone)) := by
  induction h with
  | nil => exact .nil
  | @cons e e' es es' he _ ih =>
    by_cases hname : e.name ∈ gone
    · rwa [List.filter_cons_of_neg (by simpa using hname),
        List.filter_cons_of_neg (by simpa [he.name] using hname)]
    · rw [List.filter_cons_of_pos (by simpa using hname),
        List.filter_cons_of_pos (by simpa [he.name] using hname)]
      exact .cons he ih

theorem forall₂_pruned_trans {es es' es'' : List Equation} (h : List.Forall₂ Pruned es es')
    (h' : List.Forall₂ Pruned es' es'') : List.Forall₂ Pruned es es'' := by
  induction h generalizing es'' with
  | nil => exact h'
  | cons he _ ih =>
    cases h' with
    | cons he' hes' => exact .cons (he.trans he') (ih hes')

end Equation

namespace EqSystem

/-- The same initial instance over what is left of the equations: they follow each other as before,
those of some names are gone, and the name on which the system starts is not one of these. -/
structure Pruned (s q : EqSystem) : Prop where
  init : q.init = s.init
  equations : ∃ gone : List String, s.init.name ∉ gone ∧
    List.Forall₂ Equation.Pruned (s.equations.filter (·.name ∉ gone)) q.equations

variable {s q r : EqSystem}

theorem Pruned.refl (s : EqSystem) : s.Pruned s := by
  refine ⟨rfl, [], List.not_mem_nil, ?_⟩
  simpa using List.forall₂_same.mpr fun e _ => Equation.Pruned.refl e

theorem Pruned.trans (h : s.Pruned q) (h' : q.Pruned r) : s.Pruned r := by
  obtain ⟨hinit, gone, hgone, hequations⟩ := h
  obtain ⟨hinit', gone', hgone', hequations'⟩ := h'
  refine ⟨hinit'.trans hinit, gone ++ gone', ?_, ?_⟩
  · rw [List.mem_append, not_or]
    exact ⟨hgone, hinit ▸ hgone'⟩
  · have hboth := Equation.forall₂_pruned_filter hequations gone'
    rw [List.filter_filter] at hboth
    have hnames : (fun e : Equation => decide (e.name ∉ gone') && decide (e.name ∉ gone)) =
        fun e => decide (e.name ∉ gone ++ gone') := by
      funext e
      simp [Bool.and_comm]
    rw [hnames] at hboth
    exact Equation.forall₂_pruned_trans hboth hequations'

theorem Removes.pruned {name : String} {value : Bool} (h : s.Removes name value q)
    (hname : name ≠ s.init.name) : s.Pruned q := by
  refine ⟨h.init, [name], by simpa using hname.symm, ?_⟩
  simp only [List.mem_singleton]
  refine h.equations.imp ?_
  rintro e _ ⟨f, hf, rfl⟩
  exact .of_rhs hf.pruned

theorem Rewrites.pruned {R : Formula → Formula → Prop} (hR : ∀ t u, R t u → t.Pruned u)
    (h : s.Rewrites R q) : s.Pruned q := by
  obtain @⟨before, e, after, i, C, t, u, htu, he⟩ := h
  refine ⟨rfl, [], List.not_mem_nil, ?_⟩
  have hrhs : e.rhs.Pruned (C.fill u) := he ▸ .fill C (hR t u htu)
  have hsame (es : List Equation) : List.Forall₂ Equation.Pruned es es :=
    List.forall₂_same.mpr fun e _ => .refl e
  simpa using List.rel_append (hsame before) (.cons (.of_rhs hrhs) (hsame after))

/-- One step of the search keeps the frame. -/
theorem pruned_of_mem_reductions (h : q ∈ s.reductions) : s.Pruned q := by
  obtain h | h := List.mem_append.mp h
  · obtain ⟨e, -, hname, value, hremoves⟩ := mem_removals_iff.mp h
    exact hremoves.pruned hname
  · exact (mem_reducts_iff.mp h).pruned fun t u htu => htu.1.pruned

end EqSystem

namespace Search

/-- Where a search stands at some moment: before a sweep, after a sweep, or later on, after a sweep
that has found a system to move on to. -/
inductive Visits (p : Probe σ ε) : Search → σ → Search → Prop
  | here (m : Search) (st : σ) : Visits p m st m
  | swept {m st ending n st'}
      (hsweep : sweep p Subtype.val (smaller m.current) m.attempts st = (ending, n, st')) :
      Visits p m st (afterSweep m ending n)
  | later {m st q n st' m'}
      (hsweep : sweep p Subtype.val (smaller m.current) m.attempts st = (.found q, n, st'))
      (rest : Visits p { m with current := q.val, attempts := n }
        (p.note ⟨.search, .debug, "reduced counterexample to size " ++ toString q.val.size⟩ st')
        m') :
      Visits p m st m'

theorem visits_descend (p : Probe σ ε) (m : Search) (st : σ) :
    Visits p m st (descend p m st).2.1 := by
  induction m, st using descend.induct (p := p) with
  | case1 m st e n st' hsweep | case2 m st n st' hsweep =>
    rw [descend, hsweep]
    exact .swept hsweep
  | case3 m st q n st' hsweep ih =>
    rw [descend, hsweep]
    exact .later hsweep ih

theorem pruned_of_sweep {p : Probe σ ε} {m : Search} {st st' : σ} {n : Nat}
    {q : { q : EqSystem // q.weight < m.current.weight }}
    (hsweep : sweep p Subtype.val (smaller m.current) m.attempts st = (.found q, n, st')) :
    m.current.Pruned q := by
  have hq : q ∈ smaller m.current := mem_of_sweep (congrArg Prod.fst hsweep)
  have hlighter : q.val ∈ lighter m.current := List.mem_map_of_mem hq
  exact EqSystem.pruned_of_mem_reductions (mem_lighter.mp hlighter).1

theorem Visits.pruned {p : Probe σ ε} {m m' : Search} {st : σ} (h : Visits p m st m') :
    m.current.Pruned m'.current := by
  induction h with
  | here m st => exact .refl _
  | @swept m st ending n st' hsweep =>
    cases ending with
    | found q => exact pruned_of_sweep hsweep
    | exhausted | broken e => exact .refl _
  | later hsweep rest ih => exact (pruned_of_sweep hsweep).trans ih

theorem pruned_currentAfter {s : EqSystem} {calls : List (Call ε)} (h : Asked s calls) :
    s.Pruned (currentAfter s calls) := by
  induction calls generalizing s with
  | nil => exact .refl s
  | cons c calls ih =>
    obtain ⟨hc, hcalls⟩ := h
    have hnext : s.Pruned (c.next s) := by
      unfold Call.next
      split
      · exact EqSystem.pruned_of_mem_reductions (mem_lighter.mp hc).1
      · exact .refl s
    exact hnext.trans (ih hcalls)

theorem visits_run (p : Probe σ ε) (m : Search) (st : σ) :
    ∃ st', Visits p m st' (run p m st).2.1 := by
  have h := visits_descend p m (p.note ⟨.search, .info, "minimizing " ++ m.name ++
    " counterexample of size " ++ toString m.current.size⟩ st)
  unfold run
  dsimp only
  rcases hd : descend p m _ with ⟨r, m', st'⟩
  rw [hd] at h
  cases r with
  | error e => exact ⟨_, h⟩
  | ok r => exact ⟨_, h⟩

/-- Whatever the test answers and however the search ends, the system is at every moment what is
left of the one at the start. -/
theorem run_prunes (p : Probe σ ε) (m : Search) (st : σ) :
    (∀ st m', Visits p m st m' → m.current.Pruned m'.current) ∧
      (∀ before after, calls p m st = before ++ after →
        m.current.Pruned (currentAfter m.current before)) ∧
      m.current.Pruned (run p m st).2.1.current ∧
      ∀ r, (run p m st).1 = .ok r → m.current.Pruned r := by
  obtain ⟨st', hvisits⟩ := visits_run p m st
  refine ⟨fun st m' h => h.pruned, fun before after hsplit => ?_, hvisits.pruned, fun r hr => ?_⟩
  · have hasked := (run_calls p m st).asked
    rw [hsplit, asked_append] at hasked
    exact pruned_currentAfter hasked.1
  · rw [← (run_place p m st).2 r hr]
    exact hvisits.pruned

end Search

end PbesLab

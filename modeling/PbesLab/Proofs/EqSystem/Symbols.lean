import Mathlib.Data.List.Basic
import PbesLab.EqSystem.Reader
import PbesLab.Proofs.EqSystem.Check
import PbesLab.Proofs.Grammar.Meaning
import PbesLab.Proofs.Grammar.Shape

namespace PbesLab

open Grammar (Gives Only Pattern)
open Grammar.Tree (Node nodes meaningsOf_singleton meaningsOf_eq_mapM)

/-- What holds of the nodes of single tokens, and passes to a node from those inside it, holds of
the root of a tree. -/
theorem EqSystem.only_of_tree {G : Node SystemRule → Prop} {text : String}
    {t : Grammar.Tree SystemRule}
    (hatomic : ∀ n : Node SystemRule, SystemRule.rules.atomic n.rule → n.inner = [] → G n)
    (hopen : ∀ n : Node SystemRule, SystemRule.rules.atomic n.rule = false →
      Gives (Only G) (SystemRule.rules.body n.rule) n.inner → G n)
    (h : EqSystem.tree text = .ok t) : Only G .system (nodes [t]) := by
  unfold EqSystem.tree at h
  split at h
  · next t' hread =>
    obtain rfl := Except.ok.inj h
    exact Grammar.only_of_read? hatomic hopen hread
  · cases h

/-- The system of a tree is the meaning of its root. -/
theorem EqSystem.ofTree_eq {t : Grammar.Tree SystemRule} {n : Node SystemRule}
    (h : nodes [t] = [n]) : EqSystem.ofTree t = match n.meaning Meaning.ofNode? with
      | .ok (.system s) => .ok s
      | .ok _ => .error (.unexpectedNode .system)
      | .error r => .error (.unexpectedNode r) := by
  have hmeanings : t.meanings Meaning.ofNode? = [n].mapM (Node.meaning Meaning.ofNode?) := by
    rw [← meaningsOf_singleton, meaningsOf_eq_mapM, h]
  rw [EqSystem.ofTree, hmeanings, List.mapM_cons, List.mapM_nil]
  cases n.meaning Meaning.ofNode? with
  | error r => rfl
  | ok m => cases m <;> rfl

/-- What stands in a text apart from layout, parentheses, separators and the keywords of clauses.
Sums and binary connectives show in nothing but their operands. -/
inductive Symbol
  | name (x : String)
  | number (value : Nat)
  | truth (value : Bool)
  | sort (s : DataSort)
  | fixpoint (f : Fixpoint)
  | quantifier (q : Quantifier)
  | comparison (op : DataOp)
  | negation
deriving DecidableEq

namespace Symbol

def ofNode? : SystemRule → List (Grammar.Tree SystemRule) → Option Symbol
  | .identifier, parts => some (.name (String.ofList (Grammar.Tree.textOf parts)))
  | .number, parts => some (.number (Nat.ofDigitChars 10 (Grammar.Tree.textOf parts) 0))
  | .trueLit, _ => some (.truth true)
  | .falseLit, _ => some (.truth false)
  | .boolSort, _ => some (.sort .bool)
  | .natSort, _ => some (.sort .nat)
  | .mu, _ => some (.fixpoint .mu)
  | .nu, _ => some (.fixpoint .nu)
  | .all, _ => some (.quantifier .all)
  | .ex, _ => some (.quantifier .ex)
  | .equal, _ => some (.comparison .equal)
  | .less, _ => some (.comparison .less)
  | .greater, _ => some (.comparison .greater)
  | .negation, _ => some .negation
  | _, _ => none

end Symbol

/-- From left to right, each node before those inside it. -/
def Grammar.Tree.Node.symbols (n : Node SystemRule) : List Symbol :=
  (Symbol.ofNode? n.rule n.parts).toList ++ n.inner.attach.flatMap fun ⟨m, _⟩ => m.symbols
termination_by sizeOf n.parts
decreasing_by exact Grammar.Tree.sizeOf_lt_of_mem_nodes (by assumption)

theorem Grammar.Tree.Node.symbols_eq (n : Node SystemRule) :
    n.symbols = (Symbol.ofNode? n.rule n.parts).toList ++ n.inner.flatMap Node.symbols := by
  rw [Node.symbols, List.flatMap_subtype, List.unattach_attach]
  intros
  rfl

def DataOp.symbols : DataOp → List Symbol
  | plus => []
  | op => [.comparison op]

def DataExpr.symbols : DataExpr → List Symbol
  | var x => [.name x]
  | nat n => [.number n.toNat]
  | bool b => [.truth b]
  | binary op l r => l.symbols ++ op.symbols ++ r.symbols

def VarDecl.symbols (v : VarDecl) : List Symbol :=
  [.name v.name, .sort v.sort]

def Instance.symbols (i : Instance) : List Symbol :=
  .name i.name :: i.args.flatMap DataExpr.symbols

def Formula.symbols : Formula → List Symbol
  | const b => [.truth b]
  | val d => d.symbols
  | inst i => i.symbols
  | neg f => .negation :: f.symbols
  | bin _ l r => l.symbols ++ r.symbols
  | quant q v f => .quantifier q :: (v.symbols ++ f.symbols)

def Equation.symbols (e : Equation) : List Symbol :=
  .fixpoint e.fixpoint :: .name e.name :: (e.params.flatMap VarDecl.symbols ++ e.rhs.symbols)

def EqSystem.symbols (s : EqSystem) : List Symbol :=
  s.equations.flatMap Equation.symbols ++ s.init.symbols

namespace Meaning

def symbols : Meaning → List Symbol
  | nothing => []
  | name x => [.name x]
  | sort s => [.sort s]
  | decl v => v.symbols
  | op o => o.symbols
  | data d => d.symbols
  | inst i => i.symbols
  | formula f => f.symbols
  | quantifier q => [.quantifier q]
  | fixpoint f => [.fixpoint f]
  | equation e => e.symbols
  | init i => i.symbols
  | system s => s.symbols

variable {α : Type} {get? : Meaning → Option α} {symbols' : α → List Symbol} {op : α → α → α}
  {m : Meaning} {ms : List Meaning} {x : α} {xs : List α}

theorem symbols_of_data? {d : DataExpr} (h : m.data? = some d) : m.symbols = d.symbols := by
  unfold data? at h
  split at h <;> first | (obtain rfl := Option.some.inj h; rfl) | cases h

theorem symbols_of_formula? {f : Formula} (h : m.formula? = some f) : m.symbols = f.symbols := by
  unfold formula? at h
  split at h <;> first | (obtain rfl := Option.some.inj h; rfl) | cases h

theorem flatMap_symbols_of_mapM (hget : ∀ m x, get? m = some x → m.symbols = symbols' x)
    (h : ms.mapM get? = some xs) : ms.flatMap symbols = xs.flatMap symbols' := by
  induction ms generalizing xs with
  | nil =>
    obtain rfl := Option.some.inj h
    rfl
  | cons m ms ih =>
    rw [List.mapM_cons] at h
    obtain ⟨x, hx, h⟩ := Option.bind_eq_some_iff.mp h
    obtain ⟨xs, hxs, h⟩ := Option.bind_eq_some_iff.mp h
    obtain rfl := Option.some.inj h
    rw [List.flatMap_cons, List.flatMap_cons, hget m x hx, ih hxs]

theorem symbols_of_chain (hop : ∀ x y, symbols' (op x y) = symbols' x ++ symbols' y)
    (h : chain op xs = some x) : symbols' x = xs.flatMap symbols' := by
  cases xs with
  | nil => cases h
  | cons y ys =>
    obtain rfl := Option.some.inj h
    clear h
    induction ys generalizing y with
    | nil => simp
    | cons z ys ih => rw [List.foldl_cons, ih]; simp [hop]

theorem symbols_of_equationOf? (h : equationOf? ms = some m) : m.symbols = ms.flatMap symbols := by
  unfold equationOf? at h
  split at h
  · next fix x rest =>
    obtain ⟨last, hlast, h⟩ := Option.bind_eq_some_iff.mp h
    obtain ⟨rhs, hrhs, h⟩ := Option.bind_eq_some_iff.mp h
    obtain ⟨params, hparams, h⟩ := Option.bind_eq_some_iff.mp h
    obtain rfl := Option.some.inj h
    have hdecl (m : Meaning) (v : VarDecl) (h : m.decl? = some v) : m.symbols = v.symbols := by
      unfold decl? at h
      split at h <;> first | (obtain rfl := Option.some.inj h; rfl) | cases h
    have hrest : rest.flatMap symbols = params.flatMap VarDecl.symbols ++ rhs.symbols := by
      rw [← List.dropLast_append_getLast? last hlast, List.flatMap_append,
        flatMap_symbols_of_mapM hdecl hparams, List.flatMap_singleton, symbols_of_formula? hrhs]
    rw [List.flatMap_cons, List.flatMap_cons, hrest]
    rfl
  · cases h

theorem symbols_of_systemOf? (h : systemOf? ms = some m) : m.symbols = ms.flatMap symbols := by
  unfold systemOf? at h
  split at h
  · next i equations hms =>
    obtain ⟨es, hes, h⟩ := Option.bind_eq_some_iff.mp h
    obtain rfl := Option.some.inj h
    have hequation (m : Meaning) (e : Equation) (h : m.equation? = some e) :
        m.symbols = e.symbols := by
      unfold equation? at h
      split at h <;> first | (obtain rfl := Option.some.inj h; rfl) | cases h
    rw [← List.reverse_reverse ms, hms]
    simp [flatMap_symbols_of_mapM hequation hes, symbols, EqSystem.symbols]
  · cases h

theorem toNat_of_number? {digits : List Char} {v : UInt32} (h : number? digits = some v) :
    v.toNat = Nat.ofDigitChars 10 digits 0 := by
  obtain ⟨hlt, h⟩ := Option.ite_none_right_eq_some.mp h
  obtain rfl := Option.some.inj h
  exact UInt32.toNat_ofNat_of_lt' hlt

def gatheringRules : List SystemRule :=
  [.system, .equation, .init, .fixpoint, .varDecl, .sort, .inst, .expr, .implication, .disjunction,
    .conjunction, .negation, .quantifier, .val, .dataExpr, .compareOp, .dataSum]

/-- A node over nodes has its own symbol and theirs. -/
theorem symbols_of_ofNode? {r : SystemRule} {parts : List (Grammar.Tree SystemRule)}
    (hr : r ∈ gatheringRules) (h : ofNode? r parts ms = some m) :
    m.symbols = (Symbol.ofNode? r parts).toList ++ ms.flatMap symbols := by
  -- one case for each clause of the definition, in its order
  fun_cases ofNode? r parts ms with
  | case3 => exact symbols_of_systemOf? h
  | case4 => exact symbols_of_equationOf? h
  | case5 | case8 | case9 | case12 | case29 =>
    -- the start, fixpoints, declarations, sorts and comparisons take one shape only
    obtain rfl := Option.some.inj h
    simp [symbols, Symbol.ofNode?, VarDecl.symbols]
  | case13 parts x ms =>
    -- a name and its arguments
    obtain ⟨args, hargs, h⟩ := Option.bind_eq_some_iff.mp h
    obtain rfl := Option.some.inj h
    simp [symbols, Symbol.ofNode?, Instance.symbols,
      flatMap_symbols_of_mapM (fun _ _ => symbols_of_data?) hargs]
  | case14 | case15 =>
    -- a formula as it is
    obtain ⟨f, hf, rfl⟩ := Option.map_eq_some_iff.mp h
    rw [List.flatMap_singleton, symbols_of_formula? hf]
    rfl
  | case16 =>
    -- a premise and a conclusion
    obtain ⟨f, hf, h⟩ := Option.bind_eq_some_iff.mp h
    obtain ⟨g, hg, h⟩ := Option.bind_eq_some_iff.mp h
    obtain rfl := Option.some.inj h
    rw [List.flatMap_cons, List.flatMap_singleton, symbols_of_formula? hf, symbols_of_formula? hg]
    rfl
  | case17 | case18 =>
    -- chains of formulas
    obtain ⟨fs, hfs, h⟩ := Option.bind_eq_some_iff.mp h
    obtain ⟨f, hf, h⟩ := Option.bind_eq_some_iff.mp h
    obtain rfl := Option.some.inj h
    rw [flatMap_symbols_of_mapM (fun _ _ => symbols_of_formula?) hfs]
    exact symbols_of_chain (fun _ _ => rfl) hf
  | case19 =>
    obtain ⟨f, hf, h⟩ := Option.bind_eq_some_iff.mp h
    obtain rfl := Option.some.inj h
    rw [List.flatMap_singleton, symbols_of_formula? hf]
    rfl
  | case22 =>
    -- a quantifier, its declaration and its body
    obtain ⟨f, hf, h⟩ := Option.bind_eq_some_iff.mp h
    obtain rfl := Option.some.inj h
    rw [List.flatMap_cons, List.flatMap_cons, List.flatMap_singleton, symbols_of_formula? hf]
    rfl
  | case25 =>
    obtain ⟨d, hd, h⟩ := Option.bind_eq_some_iff.mp h
    obtain rfl := Option.some.inj h
    rw [List.flatMap_singleton, symbols_of_data? hd]
    rfl
  | case30 =>
    obtain ⟨d, hd, rfl⟩ := Option.map_eq_some_iff.mp h
    rw [List.flatMap_singleton, symbols_of_data? hd]
    rfl
  | case31 =>
    -- a comparison between its operands
    obtain ⟨x, hx, h⟩ := Option.bind_eq_some_iff.mp h
    obtain ⟨y, hy, h⟩ := Option.bind_eq_some_iff.mp h
    obtain rfl := Option.some.inj h
    rw [List.flatMap_cons, List.flatMap_cons, List.flatMap_singleton, symbols_of_data? hx,
      symbols_of_data? hy]
    exact List.append_assoc ..
  | case32 =>
    -- sums
    obtain ⟨ds, hds, h⟩ := Option.bind_eq_some_iff.mp h
    obtain ⟨d, hd, h⟩ := Option.bind_eq_some_iff.mp h
    obtain rfl := Option.some.inj h
    rw [flatMap_symbols_of_mapM (fun _ _ => symbols_of_data?) hds]
    exact symbols_of_chain (fun l r => by simp [DataExpr.symbols, DataOp.symbols]) hd
  | case34 =>
    -- the clause for all other shapes gives nothing
    simp_all [ofNode?]
  | _ => exact absurd hr (by decide)

theorem symbols_of_token {r : SystemRule} {parts : List (Grammar.Tree SystemRule)}
    (h : ofNode? r parts [] = some m) : m.symbols = (Symbol.ofNode? r parts).toList := by
  by_cases hr : r ∈ gatheringRules
  · simpa using symbols_of_ofNode? hr h
  · cases r with
    | keyword => cases h
    | number =>
      obtain ⟨v, hv, rfl⟩ := Option.map_eq_some_iff.mp h
      exact congrArg (fun k => [Symbol.number k]) (toNat_of_number? hv)
    | endOfInput | identifier | mu | nu | boolSort | natSort | all | ex | trueLit | falseLit | equal
    | less | greater =>
      obtain rfl := Option.some.inj h
      rfl
    | _ => exact absurd (by decide) hr

end Meaning

namespace Symbol

/-- If the node has a meaning, the meaning has the symbols of the node. -/
def Kept (n : Node SystemRule) : Prop :=
  ∀ m, n.meaning Meaning.ofNode? = .ok m → m.symbols = n.symbols

variable {n : Node SystemRule}

theorem ofNode?_of_meaning {m : Meaning} (h : n.meaning Meaning.ofNode? = .ok m) : ∃ ms,
    n.inner.mapM (Node.meaning Meaning.ofNode?) = .ok ms ∧
      Meaning.ofNode? n.rule n.parts ms = some m := by
  rw [Node.meaning_eq] at h
  obtain ⟨ms, hms, h⟩ := bind_eq_ok.mp h
  refine ⟨ms, hms, ?_⟩
  cases hm : Meaning.ofNode? n.rule n.parts ms with
  | none =>
    rw [hm] at h
    cases h
  | some m' =>
    rw [hm] at h
    exact congrArg some (Except.ok.inj h)

theorem flatMap_symbols_of_kept {ns : List (Node SystemRule)} {ms : List Meaning}
    (h : ∀ n ∈ ns, Kept n) (hms : ns.mapM (Node.meaning Meaning.ofNode?) = .ok ms) :
    ms.flatMap Meaning.symbols = ns.flatMap Node.symbols := by
  induction ns generalizing ms with
  | nil =>
    obtain rfl := Except.ok.inj hms
    rfl
  | cons n ns ih =>
    obtain ⟨hn, hns⟩ := List.forall_mem_cons.mp h
    rw [List.mapM_cons] at hms
    obtain ⟨m, hm, hms⟩ := bind_eq_ok.mp hms
    obtain ⟨ms', hms', hms⟩ := bind_eq_ok.mp hms
    obtain rfl := Except.ok.inj hms
    rw [List.flatMap_cons, List.flatMap_cons, hn m hm, ih hns hms']

theorem kept_token (hinner : n.inner = []) : Kept n := by
  intro m hm
  obtain ⟨ms, hms, hm⟩ := ofNode?_of_meaning hm
  rw [hinner] at hms
  obtain rfl := Except.ok.inj hms
  rw [Node.symbols_eq, hinner, List.flatMap_nil, List.append_nil]
  exact Meaning.symbols_of_token hm

theorem inner_eq_nil {G : Node SystemRule → Prop} (ha : SystemRule.rules.atomic n.rule = false)
    (hr : n.rule ∉ Meaning.gatheringRules)
    (h : Gives (Only G) (SystemRule.rules.body n.rule) n.inner) : n.inner = [] := by
  cases hn : n.rule with
  | endOfInput | boolSort | natSort | equal | less | greater =>
    rw [hn] at h
    exact h
  | keyword | identifier | mu | nu | all | ex | trueLit | falseLit | number =>
    rw [hn] at ha
    cases ha
  | _ =>
    rw [hn] at hr
    exact absurd (by decide) hr

theorem kept_of_gives (ha : SystemRule.rules.atomic n.rule = false)
    (h : Gives (Only Kept) (SystemRule.rules.body n.rule) n.inner) : Kept n := by
  by_cases hr : n.rule ∈ Meaning.gatheringRules
  · intro m hm
    obtain ⟨ms, hms, hm⟩ := ofNode?_of_meaning hm
    rw [Node.symbols_eq, ← flatMap_symbols_of_kept h.forall_only hms]
    exact Meaning.symbols_of_ofNode? hr hm
  · exact kept_token (inner_eq_nil ha hr h)

end Symbol

def Grammar.Tree.symbols (t : Grammar.Tree SystemRule) : List Symbol :=
  (nodes [t]).flatMap Node.symbols

theorem EqSystem.symbols_of_ofTree {text : String} {t : Grammar.Tree SystemRule} {s : EqSystem}
    (ht : EqSystem.tree text = .ok t) (h : EqSystem.ofTree t = .ok s) : s.symbols = t.symbols := by
  obtain ⟨n, hn, -, hkept⟩ :=
    EqSystem.only_of_tree (fun _ _ => Symbol.kept_token) (fun _ => Symbol.kept_of_gives) ht
  rw [ofTree_eq hn] at h
  rw [Grammar.Tree.symbols, hn, List.flatMap_singleton]
  split at h
  · next s' hm =>
    obtain rfl := Except.ok.inj h
    exact hkept _ hm
  · cases h
  · cases h

/-- The rules whose nodes bring no symbol. Keywords only stand in lookaheads. -/
def silentRules : List SystemRule :=
  [.keyword, .endOfInput]

/-- Every match of the pattern leaves a node that is not silent. -/
def leavesNode : Pattern SystemRule → Bool
  | .rule r => r ∉ silentRules
  | .seq p q => leavesNode p || leavesNode q
  | .choice p q => leavesNode p && leavesNode q
  | _ => false

theorem exists_of_leavesNode {G : Node SystemRule → Prop} {p : Pattern SystemRule}
    {ns : List (Node SystemRule)} (hp : leavesNode p) (h : Gives (Only G) p ns) :
    ∃ k ∈ ns, k.rule ∉ silentRules := by
  induction p generalizing ns with
  | rule r =>
    obtain ⟨k, rfl, rfl, -⟩ := h
    exact ⟨k, List.mem_singleton_self k, of_decide_eq_true hp⟩
  | seq p q ihp ihq =>
    obtain ⟨us, vs, rfl, hus, hvs⟩ := h
    obtain hp | hq := Bool.or_eq_true_iff.mp hp
    · obtain ⟨k, hk, hloud⟩ := ihp hp hus
      exact ⟨k, List.mem_append_left _ hk, hloud⟩
    · obtain ⟨k, hk, hloud⟩ := ihq hq hvs
      exact ⟨k, List.mem_append_right _ hk, hloud⟩
  | choice p q ihp ihq =>
    obtain ⟨hp, hq⟩ := Bool.and_eq_true_iff.mp hp
    exact h.elim (ihp hp) (ihq hq)
  | _ => cases hp

theorem leavesNode_body : ∀ r ∈ Meaning.gatheringRules, leavesNode r.body := by decide

theorem exists_ofNode? {r : SystemRule} (hr : r ∉ Meaning.gatheringRules) (hloud : r ∉ silentRules)
    (parts : List (Grammar.Tree SystemRule)) : ∃ x, Symbol.ofNode? r parts = some x := by
  cases r with
  | identifier | number | trueLit | falseLit | boolSort | natSort | mu | nu | all | ex | equal
  | less | greater => exact ⟨_, rfl⟩
  | keyword | endOfInput => exact absurd (by decide) hloud
  | _ => exact absurd (by decide) hr

/-- The nodes within a node show, but for the silent ones. -/
def Shown (n : Node SystemRule) : Prop :=
  ∀ m : Node SystemRule, m.Within n → m.rule ∉ silentRules → m.symbols ≠ []

variable {n : Node SystemRule}

theorem shown_token (hr : n.rule ∉ Meaning.gatheringRules) (hinner : n.inner = []) : Shown n := by
  intro m hm hloud
  cases hm with
  | self =>
    obtain ⟨x, hx⟩ := exists_ofNode? hr hloud n.parts
    rw [Node.symbols_eq, hx]
    exact List.cons_ne_nil _ _
  | inner hk =>
    rw [hinner] at hk
    cases hk

theorem shown_of_gives (ha : SystemRule.rules.atomic n.rule = false)
    (h : Gives (Only Shown) (SystemRule.rules.body n.rule) n.inner) : Shown n := by
  by_cases hr : n.rule ∈ Meaning.gatheringRules
  · have hall := h.forall_only
    intro m hm hloud
    cases hm with
    | self =>
      obtain ⟨k, hk, hkloud⟩ := exists_of_leavesNode (leavesNode_body _ hr) h
      intro hnil
      rw [Node.symbols_eq, List.append_eq_nil_iff, List.flatMap_eq_nil_iff] at hnil
      exact hall k hk k .self hkloud (hnil.2 k hk)
    | inner hk hm => exact hall _ hk m hm hloud
  · exact shown_token hr (Symbol.inner_eq_nil ha hr h)

/-- The symbols of a node stand together. -/
theorem isInfix_symbols {m : Node SystemRule} (h : m.Within n) : m.symbols <:+: n.symbols := by
  induction h with
  | self => exact List.infix_refl _
  | @inner k n hk _ ih =>
    rw [Node.symbols_eq n]
    refine ih.trans ?_
    refine List.IsInfix.trans ?_ (List.suffix_append _ _).isInfix
    obtain ⟨us, vs, hinner⟩ := List.append_of_mem hk
    rw [hinner, List.flatMap_append, List.flatMap_cons, ← List.append_assoc]
    exact List.infix_append _ _ _

/-- Each node of a tree has its part of the symbols. -/
theorem EqSystem.symbols_of_hasNode {text : String} {t : Grammar.Tree SystemRule}
    {m : Node SystemRule} (ht : EqSystem.tree text = .ok t) (hm : t.HasNode m) :
    m.symbols <:+: t.symbols ∧ (m.rule ∉ silentRules → m.symbols ≠ []) := by
  have hatomic (n : Node SystemRule) (ha : SystemRule.rules.atomic n.rule)
      (hinner : n.inner = []) : Shown n := by
    refine shown_token (fun hr => ?_) hinner
    have hopen : ∀ r ∈ Meaning.gatheringRules, ¬ r.atomic := by decide
    exact hopen _ hr ha
  obtain ⟨n, hn, -, hshown⟩ := EqSystem.only_of_tree hatomic (fun _ => shown_of_gives) ht
  obtain ⟨n', hn', hm⟩ := hm
  rw [hn] at hn'
  obtain rfl := List.mem_singleton.mp hn'
  rw [Grammar.Tree.symbols, hn, List.flatMap_singleton]
  exact ⟨isInfix_symbols hm, hshown m hm⟩

end PbesLab

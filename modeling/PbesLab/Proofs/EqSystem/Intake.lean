import PbesLab.Proofs.EqSystem.Spelling
import PbesLab.Proofs.Grammar.Meaning

namespace PbesLab

open Grammar SystemRule
open Grammar.Tree (leaves meaningsOf meaningsOf_append meaningsOf_leaves meaningsOf_node)

/-- What is built from tokens: a number that does not fit has no meaning. -/
def Yield (ts : List Token) (ms : List Meaning) : Except SystemRule (List Meaning) :=
  if ts.all Token.fits then .ok ms else .error .number

/-- Before the tokens `us`, the pattern takes the tokens `ts` and they mean `ms`. -/
def Takes (p : Pattern SystemRule) (ts : List Token) (ms : List Meaning) (us : List Token) : Prop :=
  ∀ cs, Reads Token.isWord (ts ++ us) cs → ∃ parts rest,
    Settles rules false p (skip cs) (.matched parts rest) ∧
      meaningsOf Meaning.ofNode? parts = Yield ts ms ∧ Reads Token.isWord us rest

def Refuses (p : Pattern SystemRule) (us : List Token) : Prop :=
  ∀ cs, Reads Token.isWord us cs → Settles rules false p (skip cs) .failed

theorem yield_append (ts us : List Token) (ms ns : List Meaning) :
    (do return (← Yield ts ms) ++ (← Yield us ns)) = Yield (ts ++ us) (ms ++ ns) := by
  unfold Yield
  rw [List.all_append]
  cases ts.all Token.fits <;> cases us.all Token.fits <;> rfl

theorem meaningsOf_seq {xs ys : List (Grammar.Tree SystemRule)} {ts us : List Token}
    {ms ns : List Meaning} (hx : meaningsOf Meaning.ofNode? xs = Yield ts ms)
    (hy : meaningsOf Meaning.ofNode? ys = Yield us ns) :
    meaningsOf Meaning.ofNode? (xs ++ ys) = Yield (ts ++ us) (ms ++ ns) := by
  rw [meaningsOf_append, hx, hy]
  exact yield_append ts us ms ns

theorem meaningsOf_node_eq {r : SystemRule} {parts : List (Grammar.Tree SystemRule)}
    {ts : List Token} {ms : List Meaning} {m : Meaning}
    (hparts : meaningsOf Meaning.ofNode? parts = Yield ts ms)
    (hm : Meaning.ofNode? r parts ms = some m) :
    meaningsOf Meaning.ofNode? [.node r parts] = Yield ts [m] := by
  rw [meaningsOf_node, hparts]
  unfold Yield
  cases ts.all Token.fits with
  | false => rfl
  | true => simp only [if_true, Except.bind, hm]

variable {p q : Pattern SystemRule} {ts us vs : List Token} {ms ns : List Meaning}

namespace Takes

theorem finish : Takes .finish [] [] [] := by
  intro cs hcs
  have hskip : skip cs = [] := hcs
  rw [hskip]
  exact ⟨[], [], .finish, rfl, rfl⟩

theorem literal {t : Token} (ht : t.isFixed) : Takes (.literal t.chars) [t] [] us := by
  rintro cs ⟨rest, hskip, -, hrest⟩
  have hsettles : Settles rules false (.literal t.chars) (skip cs)
      (.matched (leaves t.chars) rest) := by
    rw [hskip]
    exact .literal
  refine ⟨_, rest, hsettles, ?_, hrest⟩
  cases t with
  | keyword | mark => exact meaningsOf_leaves _
  | name | number => cases ht

theorem mark (m : Mark) : Takes (.word m.text) [.mark m] [] us :=
  literal (t := .mark m) rfl

theorem keyword (k : Keyword) : Takes (.word k.text) [.keyword k] [] us :=
  literal (t := .keyword k) rfl

theorem rule {r : SystemRule} {m : Meaning} (hr : r.atomic = false) (h : Takes r.body ts ms us)
    (hm : ∀ parts, Meaning.ofNode? r parts ms = some m) : Takes (.rule r) ts [m] us := by
  intro cs hcs
  obtain ⟨parts, rest, hsettles, hmeans, hrest⟩ := h cs hcs
  have hbody : Settles rules (rules.atomic r) (rules.body r) (skip cs) (.matched parts rest) := by
    rw [show rules.atomic r = false from hr]
    exact hsettles
  exact ⟨_, rest, .rule_matched hbody, meaningsOf_node_eq hmeans (hm parts), hrest⟩

theorem seq (hp : Takes p ts ms (us ++ vs)) (hq : Takes q us ns vs) :
    Takes (.seq p q) (ts ++ us) (ms ++ ns) vs := by
  intro cs hcs
  rw [List.append_assoc] at hcs
  obtain ⟨xs, mid, hxs, hms, hmid⟩ := hp cs hcs
  obtain ⟨ys, rest, hys, hns, hrest⟩ := hq mid hmid
  have hgap : meaningsOf Meaning.ofNode? (xs ++ leaves (gap rules false mid).1) =
      Yield ts ms := by
    rw [meaningsOf_append, hms, meaningsOf_leaves]
    unfold Yield
    cases ts.all Token.fits with
    | false => rfl
    | true => exact congrArg Except.ok (List.append_nil ms)
  exact ⟨_, rest, .seq hxs hys, meaningsOf_seq hgap hns, hrest⟩

theorem choice_left (h : Takes p ts ms us) : Takes (.choice p q) ts ms us := by
  intro cs hcs
  obtain ⟨parts, rest, hsettles, hmeans, hrest⟩ := h cs hcs
  exact ⟨parts, rest, hsettles.choice_left, hmeans, hrest⟩

theorem choice_right (hp : Refuses p (ts ++ us)) (hq : Takes q ts ms us) :
    Takes (.choice p q) ts ms us := by
  intro cs hcs
  obtain ⟨parts, rest, hsettles, hmeans, hrest⟩ := hq cs hcs
  exact ⟨parts, rest, .choice_right (hp cs hcs) hsettles, hmeans, hrest⟩

theorem opt_some (h : Takes p ts ms us) : Takes (.opt p) ts ms us := by
  intro cs hcs
  obtain ⟨parts, rest, hsettles, hmeans, hrest⟩ := h cs hcs
  exact ⟨parts, rest, hsettles.opt_some, hmeans, hrest⟩

theorem opt_none (h : Refuses p us) : Takes (.opt p) [] [] us := by
  intro cs hcs
  exact ⟨[], skip cs, .opt_none (h cs hcs), rfl, reads_skip.mpr hcs⟩

end Takes

namespace Refuses

theorem rule {r : SystemRule} (hr : r.atomic = false) (h : Refuses r.body us) :
    Refuses (.rule r) us := by
  intro cs hcs
  have hbody : Settles rules (false || rules.atomic r) (rules.body r) (skip cs) .failed := by
    rw [show rules.atomic r = false from hr]
    exact h cs hcs
  exact .rule_failed hbody

theorem seq (h : Refuses p us) : Refuses (.seq p q) us :=
  fun cs hcs => .seq_failed (h cs hcs)

theorem choice (hp : Refuses p us) (hq : Refuses q us) : Refuses (.choice p q) us :=
  fun cs hcs => .choice_right (hp cs hcs) (hq cs hcs)

end Refuses

def SystemRule.ranking : Ranking rules where
  rank
    | keyword | mu | nu | all | ex | trueLit | falseLit | number | boolSort | natSort | equal | less
    | greater | val | negation | endOfInput => 0
    | identifier | fixpoint | sort | compareOp | quantifier | init | system => 1
    | varDecl | inst | dataSum | equation => 2
    | conjunction | dataExpr => 3
    | disjunction => 4
    | implication => 5
    | expr => 6
  reads r := r ≠ endOfInput
  rank_lt r := by cases r <;> decide
  reads_body r := by cases r <;> decide
  startsBelow_body r := by cases r <;> decide

/-- Further repetitions of a pattern take the tokens `ts`, up to `us`. -/
def TakesMore (p : Pattern SystemRule) (ts : List Token) (ms : List Meaning) (us : List Token) :
    Prop :=
  ∀ cs, Reads Token.isWord (ts ++ us) cs → ∃ parts rest, Repeats rules false p cs parts rest ∧
    meaningsOf Meaning.ofNode? parts = Yield ts ms ∧ Reads Token.isWord us rest

theorem TakesMore.stop (h : Refuses p us) : TakesMore p [] [] us :=
  fun cs hcs => ⟨[], cs, .stop (h cs hcs), rfl, hcs⟩

theorem TakesMore.step (hreads : p.consumes ranking.reads) (h : Takes p ts ms (us ++ vs))
    (more : TakesMore p us ns vs) : TakesMore p (ts ++ us) (ms ++ ns) vs := by
  intro cs hcs
  rw [List.append_assoc] at hcs
  obtain ⟨xs, mid, hxs, hms, hmid⟩ := h cs hcs
  obtain ⟨ys, rest, hys, hns, hrest⟩ := more mid hmid
  have hshorter := hxs.length_lt layout_lossless ranking hreads
  have hgap : (skip cs).length ≤ cs.length :=
    length_gap_le (g := rules) layout_lossless false cs
  refine ⟨_, rest, .step hxs (by omega) hys, meaningsOf_seq ?_ hns, hrest⟩
  rw [meaningsOf_append, meaningsOf_leaves, hms]
  unfold Yield
  cases ts.all Token.fits <;> rfl

theorem TakesMore.many (h : TakesMore p ts ms us) : Takes (.many p) ts ms us := by
  intro cs hcs
  obtain ⟨parts, rest, hrepeats, hmeans, hrest⟩ := h cs hcs
  cases hrepeats with
  | stop hstop => exact ⟨[], skip cs, .many_nil hstop, hmeans, reads_skip.mpr hrest⟩
  | @step _ mid _ xs ys hxs _ hys =>
    refine ⟨xs ++ ys, rest, .many_cons hxs hys, ?_, hrest⟩
    rw [← hmeans, meaningsOf_append, meaningsOf_append, meaningsOf_append, meaningsOf_leaves]
    cases meaningsOf Meaning.ofNode? xs <;> rfl

end PbesLab

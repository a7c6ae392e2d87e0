import PbesLab.Proofs.ClassTable.Legal
import PbesLab.Proofs.Grammar.Meaning
import PbesLab.Proofs.Lists

namespace PbesLab

namespace ClassRule

open Grammar
open Grammar.Tree (leaves meaningsOf meaningsOf_append_ok meaningsOf_gap_ok meaningsOf_leaves
  meaningsOf_nil)

/-- Every match of the pattern where no layout stands has meanings, and they are of a given form. -/
def Means (p : Pattern ClassRule) (form : List RowMeaning → Prop) : Prop :=
  ∀ depth cs parts rest, Flush cs →
    matchPattern rules (matchRule rules depth) false p cs = .matched parts rest →
      ∃ ms, meaningsOf RowMeaning.ofNode? parts = .ok ms ∧ form ms

def Single {α : Type} (kind : α → RowMeaning) (Q : α → Prop) (ms : List RowMeaning) : Prop :=
  ∃ a, Q a ∧ ms = [kind a]

def Several {α : Type} (kind : α → RowMeaning) (Q : α → Prop) (ms : List RowMeaning) : Prop :=
  ∃ as : List α, (∀ a ∈ as, Q a) ∧ ms = as.map kind

theorem Several.cons {α : Type} {kind : α → RowMeaning} {Q : α → Prop} {ms ns : List RowMeaning}
    (hm : Single kind Q ms) (hn : Several kind Q ns) : Several kind Q (ms ++ ns) := by
  obtain ⟨a, ha, rfl⟩ := hm
  obtain ⟨as, has, rfl⟩ := hn
  exact ⟨a :: as, List.forall_mem_cons.mpr ⟨ha, has⟩, rfl⟩

namespace Means

variable {p q : Pattern ClassRule} {P Q : List RowMeaning → Prop} {α : Type} {kind : α → RowMeaning}
  {R : α → Prop}

theorem mono (hp : Means p P) (h : ∀ ms, P ms → Q ms) : Means p Q := by
  intro depth cs parts rest hcs hm
  obtain ⟨ms, hms, hP⟩ := hp _ _ _ _ hcs hm
  exact ⟨ms, hms, h ms hP⟩

theorem empty : Means .empty (· = []) := by
  intro depth cs parts rest _ hm
  obtain ⟨rfl, rfl⟩ := Result.matched.inj hm
  exact ⟨[], rfl, rfl⟩

theorem terminal (hp : p.isTerminal) : Means p (· = []) := by
  intro depth cs parts rest _ hm
  obtain ⟨t, -, -, rfl⟩ := exists_of_matchPattern_terminal hm hp fun _ => false
  exact ⟨[], meaningsOf_leaves t, rfl⟩

theorem seq (hp : Means p P) (hq : Means q Q) :
    Means (.seq p q) fun ms => ∃ as bs, ms = as ++ bs ∧ P as ∧ Q bs := by
  intro depth cs parts rest hcs hm
  obtain ⟨xs, mid, ys, hxs, hys, rfl⟩ := matchPattern_seq_eq_matched.mp hm
  obtain ⟨as, has, hP⟩ := hp _ _ _ _ hcs hxs
  obtain ⟨bs, hbs, hQ⟩ := hq _ _ _ _ (flush_layout mid) hys
  exact ⟨as ++ bs, meaningsOf_gap_ok _ has hbs, as, bs, rfl, hP, hQ⟩

/-- A mark behind a pattern means nothing. -/
theorem seq_word (hp : Means p P) (t : String) : Means (.seq p (.word t)) P :=
  (hp.seq (terminal rfl)).mono fun ms ⟨as, bs, hms, hP, hbs⟩ => by simpa [hms, hbs] using hP

theorem word_seq (t : String) (hq : Means q Q) : Means (.seq (.word t) q) Q :=
  ((terminal rfl).seq hq).mono fun ms ⟨as, bs, hms, has, hQ⟩ => by simpa [hms, has] using hQ

theorem opt (hp : Means p P) : Means (.opt p) fun ms => ms = [] ∨ P ms := by
  intro depth cs parts rest hcs hm
  simp only [matchPattern] at hm
  split at hm
  · obtain ⟨rfl, rfl⟩ := Result.matched.inj hm
    exact ⟨[], rfl, .inl rfl⟩
  · obtain ⟨ms, hms, hP⟩ := hp _ _ _ _ hcs hm
    exact ⟨ms, hms, .inr hP⟩

/-- The meanings of repetitions one after the other. -/
theorem repeatStep (hp : Means p (Single kind R)) {depth : Nat} {allowance cs rest : List Char}
    {parts : List (Grammar.Tree ClassRule)}
    (h : repeatStep (gap rules false) (matchPattern rules (matchRule rules depth) false p)
      allowance cs = .matched parts rest) :
    ∃ ms, meaningsOf RowMeaning.ofNode? parts = .ok ms ∧ Several kind R ms := by
  induction allowance generalizing cs parts with
  | nil =>
    obtain ⟨rfl, rfl⟩ := Result.matched.inj h
    exact ⟨[], rfl, [], by simp, rfl⟩
  | cons c allowance ih =>
    obtain ⟨-, rfl, -⟩ | ⟨xs, mid, ys, hxs, hys, rfl⟩ := repeatStep_cons_eq_matched.mp h
    · exact ⟨[], rfl, [], by simp, rfl⟩
    · obtain ⟨ms, hms, hone⟩ := hp _ _ _ _ (flush_layout cs) hxs
      obtain ⟨ns, hns, hmore⟩ := ih hys
      have hstep := meaningsOf_gap_ok (gap rules false cs).1 meaningsOf_nil hms
      exact ⟨ms ++ ns, meaningsOf_append_ok hstep hns, Several.cons hone hmore⟩

theorem many (hp : Means p (Single kind R)) : Means (.many p) (Several kind R) := by
  intro depth cs parts rest hcs hm
  obtain ⟨-, rfl, -⟩ | ⟨xs, mid, ys, hxs, hys, rfl⟩ := matchPattern_many_eq_matched.mp hm
  · exact ⟨[], rfl, [], by simp, rfl⟩
  · obtain ⟨ms, hms, hone⟩ := hp _ _ _ _ hcs hxs
    obtain ⟨ns, hns, hmore⟩ := repeatStep hp hys
    exact ⟨ms ++ ns, meaningsOf_append_ok hms hns, Several.cons hone hmore⟩

theorem commaList (hp : Means p (Single kind R)) : Means (.commaList p) (Several kind R) := by
  refine (hp.seq (word_seq "," hp).many).mono ?_
  rintro ms ⟨as, bs, rfl, hone, hmore⟩
  exact Several.cons hone hmore

/-- A rule means what its node stands for. -/
theorem rule {r : ClassRule}
    (h : ∀ depth cs parts rest, Flush cs →
      matchPattern rules (matchRule rules depth) r.atomic r.body cs = .matched parts rest →
        ∃ ms a, meaningsOf RowMeaning.ofNode? parts = .ok ms ∧
          RowMeaning.ofNode? r parts ms = some (kind a) ∧ R a) :
    Means (.rule r) (Single kind R) := by
  intro depth cs parts rest hcs hm
  cases depth with
  | zero => cases hm
  | succ depth =>
    obtain ⟨xs, mid, hxs, hk⟩ := Result.andThen_eq_matched.mp hm
    obtain ⟨rfl, -⟩ := Result.matched.inj hk
    obtain ⟨ms, a, hms, ha, hR⟩ := h _ _ _ _ hcs hxs
    exact ⟨[kind a], Tree.meaningsOf_node_ok hms ha, a, hR, rfl⟩

/-- An open rule has its meaning from those inside it. -/
theorem openRule {r : ClassRule} (hr : r.atomic = false) (hp : Means r.body P)
    (h : ∀ ms, P ms → ∃ a, (∀ parts, RowMeaning.ofNode? r parts ms = some (kind a)) ∧ R a) :
    Means (.rule r) (Single kind R) := by
  refine rule fun depth cs parts rest hcs hm => ?_
  rw [hr] at hm
  obtain ⟨ms, hms, hP⟩ := hp _ _ _ _ hcs hm
  obtain ⟨a, ha, hR⟩ := h ms hP
  exact ⟨ms, a, hms, ha parts, hR⟩

/-- An atomic rule has its meaning from the characters it reads. -/
theorem atomicRule {r : ClassRule} {F : List Char → Prop} (hr : r.atomic)
    (hp : ∀ {call cs parts rest},
      matchPattern rules call true r.body cs = .matched parts rest → ∃ w, parts = leaves w ∧ F w)
    (h : ∀ w, F w → ∃ a, RowMeaning.ofNode? r (leaves w) [] = some (kind a) ∧ R a) :
    Means (.rule r) (Single kind R) := by
  refine rule fun depth cs parts rest _ hm => ?_
  rw [hr] at hm
  obtain ⟨w, rfl, hw⟩ := hp hm
  obtain ⟨a, ha, hR⟩ := h w hw
  exact ⟨[], a, meaningsOf_leaves w, ha, hR⟩

end Means

/-- What an identifier is read from is the word at the start of the text. -/
theorem identifier_of_match {depth : Nat} {cs rest : List Char}
    {parts : List (Grammar.Tree ClassRule)}
    (h : matchRule rules depth false identifier cs = .matched parts rest) :
    IsIdentifier (String.ofList (cs.takeWhile isNameChar)) ∧
      meaningsOf RowMeaning.ofNode? parts =
        .ok [.name (String.ofList (cs.takeWhile isNameChar))] := by
  cases depth with
  | zero => cases h
  | succ depth =>
    obtain ⟨xs, mid, hxs, hk⟩ := Result.andThen_eq_matched.mp h
    obtain ⟨rfl, -⟩ := Result.matched.inj hk
    obtain ⟨hrun, rfl⟩ := isRun_of_match (fun _ => isNameChar_of_isNameStart) hxs
    refine ⟨?_, Tree.meaningsOf_node_ok (meaningsOf_leaves _) ?_⟩
    · rwa [IsIdentifier, String.toList_ofList]
    · simp [RowMeaning.ofNode?]

theorem means_identifier : Means (.rule identifier) (Single .name IsIdentifier) := by
  intro depth cs parts rest _ hm
  obtain ⟨hw, hmeans⟩ := identifier_of_match hm
  exact ⟨_, hmeans, _, hw, rfl⟩

theorem means_tag :
    Means (.rule tag) (Single .tag fun x => IsRun isNameChar isNameChar x.toList) := by
  refine .atomicRule (F := IsRun isNameChar isNameChar) rfl ?_ ?_
  · intro call cs parts rest hm
    obtain ⟨hrun, rfl⟩ := isRun_of_match (fun _ h => h) hm
    exact ⟨_, rfl, hrun⟩
  · intro w hw
    exact ⟨String.ofList w, by simp [RowMeaning.ofNode?], by simpa using hw⟩

theorem means_description : Means (.rule description) (Single .description fun x =>
    Text.IsTrimmed x.toList ∧ ∀ c ∈ x.toList, isInLine c) := by
  refine .atomicRule (F := fun w => ∀ c ∈ w, isInLine c) rfl ?_ ?_
  · intro call cs parts rest hm
    obtain ⟨rfl, -⟩ := Result.matched.inj (matchPattern_line.symm.trans hm)
    exact ⟨_, rfl, fun c hc => List.mem_takeWhile_imp hc⟩
  · intro w hw
    refine ⟨String.ofList (Text.trim w), by simp [RowMeaning.ofNode?], ?_⟩
    rw [String.toList_ofList]
    refine ⟨Text.isTrimmed_trim w, fun c hc => hw c ?_⟩
    obtain ⟨before, after, -, -, hsplit⟩ := Text.exists_trim w
    rw [hsplit]
    simp [hc]

theorem constQualifier_of_failed {depth : Nat} {cs : List Char}
    (h : matchRule rules depth false constQualifier cs = .failed) :
    cs.takeWhile isNameChar ≠ "const".toList := by
  cases depth with
  | zero => cases h
  | succ depth =>
    intro hword
    have hbody : matchPattern rules (matchRule rules depth) true (body constQualifier) cs = _ :=
      (matchPattern_wholeWord isNameChar_const).trans (if_pos hword)
    have hcall : matchRule rules (depth + 1) false constQualifier cs =
        (matchPattern rules (matchRule rules depth) true (body constQualifier) cs).andThen _ := rfl
    rw [hcall, hbody] at h
    cases h

theorem means_constQualifier :
    Means (.rule constQualifier) (Single (fun _ : Unit => .const) fun _ => True) := by
  refine .rule fun depth cs parts rest _ hm => ?_
  have hbody := (matchPattern_wholeWord isNameChar_const).symm.trans hm
  split at hbody
  · obtain ⟨rfl, -⟩ := Result.matched.inj hbody
    exact ⟨[], (), meaningsOf_leaves _, rfl, trivial⟩
  · cases hbody

/-- The qualifier is tried first, and there is no way back from it: a sort read without one is not
spelled like it. -/
theorem means_qualified {q : Pattern ClassRule} {Q : List RowMeaning → Prop} (hq : Means q Q) :
    Means (.seq (.opt (.rule constQualifier)) (.seq (.rule identifier) q)) fun ms =>
      ∃ (isConst : Bool) (s : String) (bs : List RowMeaning), IsIdentifier s ∧
        (s = "const" → isConst) ∧ Q bs ∧
          ms = (if isConst then [.const] else []) ++ .name s :: bs := by
  intro depth cs parts rest hcs hm
  obtain ⟨xs, mid, ys, hxs, hys, rfl⟩ := matchPattern_seq_eq_matched.mp hm
  obtain ⟨us, mid', vs, hus, hvs, rfl⟩ := matchPattern_seq_eq_matched.mp hys
  obtain ⟨hs, hname⟩ := identifier_of_match hus
  obtain ⟨bs, hbs, hQ⟩ := hq _ _ _ _ (flush_layout mid') hvs
  have hrest := meaningsOf_gap_ok (gap rules false mid').1 hname hbs
  simp only [matchPattern] at hxs
  split at hxs
  · next hfailed =>
    obtain ⟨rfl, rfl⟩ := Result.matched.inj hxs
    -- no layout was skipped, so the sort is the word that is not the qualifier
    have hstart : (gap rules false cs).2 = cs := congrArg Prod.snd (layout_eq_nil hcs)
    rw [hstart] at hs hrest
    refine ⟨_, meaningsOf_gap_ok _ meaningsOf_nil hrest, false, _, bs, hs, fun hsort => ?_, hQ, rfl⟩
    have hword := congrArg String.toList hsort
    rw [String.toList_ofList] at hword
    exact absurd hword (constQualifier_of_failed hfailed)
  · obtain ⟨_, hconst, _, -, rfl⟩ := means_constQualifier _ _ _ _ hcs hxs
    exact ⟨_, meaningsOf_gap_ok _ hconst hrest, true, _, bs, hs, fun _ => rfl, hQ, rfl⟩

theorem means_parameter : Means (.rule parameter) (Single .parameter Parameter.Legal) := by
  have hreference : Means (.rule reference) (Single (fun _ : Unit => .reference) fun _ => True) :=
    .openRule rfl (.terminal rfl) fun ms hms => ⟨(), fun _ => hms ▸ rfl, trivial⟩
  refine .openRule rfl (means_qualified (hreference.opt.seq means_identifier)) ?_
  rintro ms ⟨isConst, s, _, hs, hq, ⟨_, _, rfl, hr, x, hx, rfl⟩, rfl⟩
  refine ⟨⟨isConst, s, x⟩, fun parts => ?_, hs, hx, hq⟩
  obtain rfl | ⟨_, -, rfl⟩ := hr <;> cases isConst <;> rfl

/-- A name, a postfix if there is one, and parameters make a constructor. -/
theorem ofNode?_constructor (parts : List (Grammar.Tree ClassRule)) (c : Constructor) :
    RowMeaning.ofNode? constructor parts
      (.name c.name :: (c.base.map RowMeaning.basePostfix).toList ++ c.params.map .parameter) =
        some (.constructor c) := by
  obtain ⟨x, base, params⟩ := c
  have hparams {base : Option String} : (do
      return RowMeaning.constructor
        ⟨x, base, ← (params.map RowMeaning.parameter).mapM RowMeaning.parameter?⟩) =
        some (RowMeaning.constructor ⟨x, base, params⟩) := by
    rw [mapM_map_of_inverse (f := RowMeaning.parameter?) fun _ => rfl]
    rfl
  -- parameters are no postfix
  cases base with
  | some y => exact hparams
  | none =>
    cases params with
    | nil => rfl
    | cons p ps => exact hparams

theorem means_constructor : Means (.rule constructor) (Single .constructor Constructor.Legal) := by
  have hbase : Means (.rule basePostfix) (Single .basePostfix IsIdentifier) := by
    refine .openRule rfl ((means_identifier.seq_word "]").word_seq "[") ?_
    rintro ms ⟨x, hx, rfl⟩
    exact ⟨x, fun _ => rfl, hx⟩
  have hparams := (means_parameter.commaList.opt.seq_word ")").word_seq "("
  refine .openRule rfl (means_identifier.seq (hbase.opt.seq hparams)) ?_
  rintro ms ⟨_, _, rfl, ⟨x, hx, rfl⟩, bs, ps, rfl, hb, hps⟩
  obtain ⟨base, hbase, rfl⟩ : ∃ base : Option String, (∀ y ∈ base, IsIdentifier y) ∧
      bs = (base.map RowMeaning.basePostfix).toList := by
    obtain rfl | ⟨y, hy, rfl⟩ := hb
    · exact ⟨none, by simp, rfl⟩
    · exact ⟨some y, by simpa using hy, rfl⟩
  obtain ⟨params, hparams, rfl⟩ : Several RowMeaning.parameter Parameter.Legal ps := by
    obtain rfl | hps := hps
    · exact ⟨[], by simp, rfl⟩
    · exact hps
  exact ⟨⟨x, base, params⟩, fun parts => ofNode?_constructor parts ⟨x, base, params⟩, hx, hbase,
    hparams⟩

theorem means_row : Means (.rule row) (Single .row ClassRow.Legal) := by
  have hend : Means (.rule endOfInput) (Single (fun _ : Unit => .nothing) fun _ => True) :=
    .openRule rfl (.terminal rfl) fun ms hms => ⟨(), fun _ => hms ▸ rfl, trivial⟩
  refine .openRule rfl (Means.empty.seq (means_tag.seq (.word_seq "|" (means_constructor.seq
    (.word_seq "|" (means_description.seq hend)))))) ?_
  rintro ms ⟨_, _, rfl, rfl, _, _, rfl, ⟨t, ht, rfl⟩, _, _, rfl, ⟨c, hc, rfl⟩, _, _, rfl,
    ⟨d, ⟨hd, hline⟩, rfl⟩, _, -, rfl⟩
  exact ⟨⟨t, c, d⟩, fun _ => rfl, ht, hc, hd, hline⟩

end ClassRule

namespace ClassTable

open Grammar
open Grammar.Tree (meaningsOf_singleton)

/-- A line that the rule of rows matches is read, and its row is legal. -/
theorem exists_row {line : List Char} {t : Grammar.Tree ClassRule} (hline : ClassRule.Flush line)
    (h : read? ClassRule.rules .row line = some t) : ∃ r, rowOfTree t = .ok r ∧ r.Legal := by
  unfold read? at h
  split at h
  · next u us rest hm =>
    obtain rfl := Option.some.inj h
    obtain ⟨xs, hparts⟩ := exists_node_of_matchRule hm
    obtain ⟨rfl, rfl⟩ := List.cons.inj hparts
    obtain ⟨_, hmeans, r, hr, rfl⟩ := ClassRule.means_row _ _ _ _ hline hm
    rw [meaningsOf_singleton] at hmeans
    exact ⟨r, by rw [rowOfTree, hmeans], hr⟩
  · cases h

theorem legal_of_readRow {name : String} {n : Nat} {line : List Char} {r : ClassRow}
    (hline : ClassRule.Flush line) (h : readRow name n line = .ok r) : r.Legal := by
  unfold readRow at h
  split at h
  · next t ht =>
    obtain ⟨r', hr', hlegal⟩ := exists_row hline ht
    obtain rfl := Except.ok.inj (hr'.symm.trans h)
    exact hlegal
  · cases h

end ClassTable

end PbesLab

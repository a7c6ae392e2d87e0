import PbesLab.Proofs.ClassTable.Meaning
import PbesLab.Proofs.Grammar.Settling

namespace PbesLab

namespace ClassRule

open Grammar
open Grammar.Tree (leaves meaningsOf meaningsOf_append_ok meaningsOf_gap_ok meaningsOf_leaves)

/-- From a text, the pattern takes what `ms` are the meanings of, up to the rest. -/
def Takes (p : Pattern ClassRule) (cs : List Char) (ms : List RowMeaning) (rest : List Char) :
    Prop :=
  ∃ parts, Settles rules false p cs (.matched parts rest) ∧
    meaningsOf RowMeaning.ofNode? parts = .ok ms

namespace Takes

variable {p q : Pattern ClassRule} {r : ClassRule} {cs gap mid rest w : List Char}
  {ms ns : List RowMeaning} {m : RowMeaning}

theorem empty : Takes .empty rest [] rest :=
  ⟨[], .empty, rfl⟩

theorem finish : Takes .finish [] [] [] :=
  ⟨[], .finish, rfl⟩

theorem word (t : String) : Takes (.word t) (t.toList ++ rest) [] rest :=
  ⟨leaves t.toList, .literal, meaningsOf_leaves _⟩

/-- Layout between the parts of a sequence is skipped. -/
theorem seq_gap (hp : Takes p cs ms (gap ++ mid)) (hgap : ∀ c ∈ gap, isLayout c)
    (hmid : Flush mid) (hq : Takes q mid ns rest) : Takes (.seq p q) cs (ms ++ ns) rest := by
  obtain ⟨xs, hxs, hms⟩ := hp
  obtain ⟨ys, hys, hns⟩ := hq
  have hlayout : Grammar.gap rules false (gap ++ mid) = (gap, mid) := layout_append hgap hmid
  have hsettles : Settles rules false q (Grammar.gap rules false (gap ++ mid)).2
      (.matched ys rest) := by
    rwa [hlayout]
  exact ⟨_, .seq hxs hsettles, meaningsOf_gap_ok _ hms hns⟩

theorem seq (hp : Takes p cs ms mid) (hmid : Flush mid) (hq : Takes q mid ns rest) :
    Takes (.seq p q) cs (ms ++ ns) rest := by
  have hp' : Takes p cs ms ([] ++ mid) := hp
  exact hp'.seq_gap (by simp) hmid hq

theorem seq_blank (hp : Takes p cs ms (' ' :: mid)) (hmid : Flush mid) (hq : Takes q mid ns rest) :
    Takes (.seq p q) cs (ms ++ ns) rest := by
  have hp' : Takes p cs ms ([' '] ++ mid) := hp
  exact hp'.seq_gap (by simp [isLayout]) hmid hq

theorem opt_some (hp : Takes p cs ms rest) : Takes (.opt p) cs ms rest := by
  obtain ⟨xs, hxs, hms⟩ := hp
  exact ⟨xs, hxs.opt_some, hms⟩

theorem opt_none (hp : Settles rules false p rest .failed) : Takes (.opt p) rest [] rest :=
  ⟨[], .opt_none hp, rfl⟩

/-- Repetitions where no layout stands before the first. -/
theorem many {parts : List (Grammar.Tree ClassRule)} (h : Repeats rules false p cs parts rest)
    (hcs : Flush cs) (hms : meaningsOf RowMeaning.ofNode? parts = .ok ms) :
    Takes (.many p) cs ms rest := by
  have hgap : Grammar.gap rules false cs = ([], cs) := layout_eq_nil hcs
  cases h with
  | stop h =>
    rw [hgap] at h
    exact ⟨[], .many_nil h, hms⟩
  | step h shorter more =>
    rw [hgap] at h
    refine ⟨_, .many_cons h more, ?_⟩
    rw [← hms, hgap]
    rfl

theorem openRule (hr : r.atomic = false) (hp : Takes r.body cs ms rest)
    (hm : ∀ parts, RowMeaning.ofNode? r parts ms = some m) : Takes (.rule r) cs [m] rest := by
  obtain ⟨xs, hxs, hms⟩ := hp
  have hbody : Settles rules (rules.atomic r) (rules.body r) cs (.matched xs rest) := by
    rw [show rules.atomic r = false from hr]
    exact hxs
  exact ⟨_, .rule_matched hbody, Tree.meaningsOf_node_ok hms (hm xs)⟩

theorem atomicRule (hr : r.atomic)
    (hp : ∀ call, matchPattern rules call true r.body cs = .matched (leaves w) rest)
    (hm : RowMeaning.ofNode? r (leaves w) [] = some m) : Takes (.rule r) cs [m] rest := by
  have hbody : Settles rules (rules.atomic r) (rules.body r) cs (.matched (leaves w) rest) := by
    rw [show rules.atomic r = true from hr]
    exact .of_forall fun _ => hp _
  exact ⟨_, .rule_matched hbody, Tree.meaningsOf_node_ok (meaningsOf_leaves w) hm⟩

end Takes

def NoName (cs : List Char) : Prop :=
  ∀ c ∈ cs.head?, ¬ isNameChar c

theorem flush_mark {c : Char} (hc : ¬ isLayout c) (rest : List Char) : Flush (c :: rest) := by
  simpa [Flush] using hc

theorem noName_mark {c : Char} (hc : ¬ isNameChar c) (rest : List Char) : NoName (c :: rest) := by
  simpa [NoName] using hc

theorem takes_identifier {x : String} (hx : IsIdentifier x) {rest : List Char}
    (hrest : NoName rest) : Takes (.rule identifier) (x.toList ++ rest) [.name x] rest := by
  refine .atomicRule (w := x.toList) rfl ?_ (by simp [RowMeaning.ofNode?])
  exact fun _ => hx.matchPattern (fun _ => isNameChar_of_isNameStart) hrest

theorem takes_tag {x : String} (hx : IsRun isNameChar isNameChar x.toList) {rest : List Char}
    (hrest : NoName rest) : Takes (.rule tag) (x.toList ++ rest) [.tag x] rest := by
  refine .atomicRule (w := x.toList) rfl ?_ (by simp [RowMeaning.ofNode?])
  exact fun _ => hx.matchPattern (fun _ h => h) hrest

theorem takes_description {x : String} (hx : Text.IsTrimmed x.toList)
    (hline : ∀ c ∈ x.toList, isInLine c) :
    Takes (.rule description) x.toList [.description x] [] := by
  have hnone : ∀ c ∈ ([] : List Char).head?, ¬ isInLine c := by simp
  obtain ⟨hword, hafter⟩ := span_append hline hnone
  rw [List.append_nil] at hword hafter
  refine .atomicRule (w := x.toList) rfl (fun call => ?_) ?_
  · exact matchPattern_line.trans (by rw [hword, hafter])
  · simp [RowMeaning.ofNode?, Text.trim_eq_self hx]

theorem takes_constQualifier {rest : List Char} (hrest : NoName rest) :
    Takes (.rule constQualifier) ("const".toList ++ rest) [.const] rest := by
  obtain ⟨hword, hafter⟩ := span_append isNameChar_const hrest
  refine .atomicRule (w := "const".toList) rfl (fun call => ?_) rfl
  exact (matchPattern_wholeWord isNameChar_const).trans (by rw [if_pos hword, hafter])

theorem settles_constQualifier_failed {w rest : List Char} (hw : ∀ c ∈ w, isNameChar c)
    (hne : w ≠ "const".toList) (hrest : NoName rest) :
    Settles rules false (.rule constQualifier) (w ++ rest) .failed := by
  refine .rule_failed (.of_forall fun _ => ?_)
  refine (matchPattern_wholeWord isNameChar_const).trans (if_neg ?_)
  rwa [(span_append hw hrest).1]

theorem takes_parameter {p : Parameter} (hp : p.Legal) {rest : List Char} (hrest : NoName rest) :
    Takes (.rule parameter) (p.text.toList ++ rest) [.parameter p] rest := by
  obtain ⟨isConst, s, x⟩ := p
  have hamp : Takes (.rule reference) ('&' :: ' ' :: (x.toList ++ rest)) [.reference]
      (' ' :: (x.toList ++ rest)) := .openRule rfl (.word "&") fun _ => rfl
  have hname := hamp.opt_some.seq_blank (flush_run hp.name rest) (takes_identifier hp.name hrest)
  have hno : NoName ('&' :: ' ' :: (x.toList ++ rest)) := noName_mark (by decide) _
  have hsort := (takes_identifier hp.sort hno).seq (flush_mark (by decide) _) hname
  cases isConst with
  | true =>
    have hgap : NoName (' ' :: (s.toList ++ '&' :: ' ' :: (x.toList ++ rest))) :=
      noName_mark (by decide) _
    have hall := (takes_constQualifier hgap).opt_some.seq_blank (flush_run hp.sort _) hsort
    have htext : (Parameter.text ⟨true, s, x⟩).toList ++ rest =
        "const".toList ++ ' ' :: (s.toList ++ '&' :: ' ' :: (x.toList ++ rest)) := by
      simp [Parameter.text]
    rw [htext]
    exact .openRule rfl hall fun _ => rfl
  | false =>
    have hne : s.toList ≠ "const".toList := fun h =>
      Bool.false_ne_true (hp.qualified (String.toList_inj.mp h))
    have hnone := Takes.opt_none (settles_constQualifier_failed hp.sort.all hne hno)
    have hall := hnone.seq (flush_run hp.sort _) hsort
    have htext : (Parameter.text ⟨false, s, x⟩).toList ++ rest =
        s.toList ++ '&' :: ' ' :: (x.toList ++ rest) := by
      simp [Parameter.text]
    rw [htext]
    exact .openRule rfl hall fun _ => rfl

theorem toList_commas (x : String) (xs : List String) :
    (", ".intercalate (x :: xs)).toList =
      x.toList ++ xs.flatMap fun y => ',' :: ' ' :: y.toList := by
  induction xs generalizing x with
  | nil => simp
  | cons y xs ih => simp [String.intercalate_cons_cons, ih y]

theorem flush_parameter {p : Parameter} (hp : p.Legal) (rest : List Char) :
    Flush (p.text.toList ++ rest) := by
  obtain ⟨isConst, s, x⟩ := p
  cases isConst with
  | true => simp [Parameter.text, Flush, isLayout]
  | false =>
    have hflush := flush_run hp.sort ("& ".toList ++ x.toList ++ rest)
    simpa [Parameter.text] using hflush

/-- The further parameters of a list, each behind a comma, up to the end of the list. -/
def moreParameters (ps : List Parameter) (rest : List Char) : List Char :=
  ps.flatMap (fun p => ',' :: ' ' :: p.text.toList) ++ ')' :: rest

theorem moreParameters_cons (p : Parameter) (ps : List Parameter) (rest : List Char) :
    moreParameters (p :: ps) rest = ',' :: ' ' :: (p.text.toList ++ moreParameters ps rest) := by
  simp [moreParameters]

theorem moreParameters_start (ps : List Parameter) (rest : List Char) :
    NoName (moreParameters ps rest) ∧ Flush (moreParameters ps rest) := by
  cases ps with
  | nil => exact ⟨noName_mark (by decide) _, flush_mark (by decide) _⟩
  | cons p ps =>
    rw [moreParameters_cons]
    exact ⟨noName_mark (by decide) _, flush_mark (by decide) _⟩

theorem repeats_parameters {ps : List Parameter} (hps : ∀ p ∈ ps, p.Legal) (rest : List Char) :
    ∃ parts, Repeats rules false (.seq (.word ",") (.rule parameter)) (moreParameters ps rest)
        parts (')' :: rest) ∧
      meaningsOf RowMeaning.ofNode? parts = .ok (ps.map .parameter) := by
  -- no layout stands before a comma, so each step starts where the one before it ends
  have hgap (ps : List Parameter) : gap rules false (moreParameters ps rest) =
      ([], moreParameters ps rest) := layout_eq_nil (moreParameters_start ps rest).2
  induction ps with
  | nil =>
    refine ⟨[], .stop ?_, rfl⟩
    rw [hgap]
    exact .seq_failed (.literal_failed (by simp [moreParameters]))
  | cons p ps ih =>
    obtain ⟨hp, hps⟩ := List.forall_mem_cons.mp hps
    obtain ⟨ys, hys, hmore⟩ := ih hps
    have hcomma : Takes (.word ",") (moreParameters (p :: ps) rest) []
        (' ' :: (p.text.toList ++ moreParameters ps rest)) := by
      rw [moreParameters_cons]
      exact .word ","
    have hone := hcomma.seq_blank (flush_parameter hp _)
      (takes_parameter hp (moreParameters_start ps rest).1)
    obtain ⟨xs, hxs, hms⟩ := hone
    have hshorter : (moreParameters ps rest).length < (moreParameters (p :: ps) rest).length := by
      rw [moreParameters_cons]
      simp only [List.length_cons, List.length_append]
      omega
    have hstart : Settles rules false (.seq (.word ",") (.rule parameter))
        (gap rules false (moreParameters (p :: ps) rest)).2
        (.matched xs (moreParameters ps rest)) := by
      rwa [hgap]
    refine ⟨_, .step hstart hshorter hys, ?_⟩
    rw [hgap]
    exact meaningsOf_append_ok (meaningsOf_append_ok (meaningsOf_leaves []) hms) hmore

theorem takes_parameters {p : Parameter} {ps : List Parameter} (hps : ∀ q ∈ p :: ps, q.Legal)
    (rest : List Char) : Takes (.commaList (.rule parameter))
      ((", ".intercalate ((p :: ps).map Parameter.text)).toList ++ ')' :: rest)
      ((p :: ps).map .parameter) (')' :: rest) := by
  obtain ⟨hp, hps⟩ := List.forall_mem_cons.mp hps
  obtain ⟨hno, hflush⟩ := moreParameters_start ps rest
  obtain ⟨parts, hrepeats, hmeans⟩ := repeats_parameters hps rest
  have hall := (takes_parameter hp hno).seq hflush (.many hrepeats hflush hmeans)
  have htext : (", ".intercalate ((p :: ps).map Parameter.text)).toList ++ ')' :: rest =
      p.text.toList ++ moreParameters ps rest := by
    rw [List.map_cons, toList_commas]
    simp [moreParameters, List.flatMap_map]
  rw [htext]
  exact hall

theorem settles_identifier_failed {cs : List Char} (h : NoName cs) :
    Settles rules false (.rule identifier) cs .failed := by
  refine .rule_failed (.of_forall fun _ => ?_)
  refine (matchPattern_run fun _ => isNameChar_of_isNameStart).trans (if_neg ?_)
  cases cs with
  | nil => simp
  | cons c cs =>
    have hc : ¬ isNameStart c := fun hstart => h c rfl (isNameChar_of_isNameStart hstart)
    simpa using hc

theorem settles_parameter_failed {cs : List Char} (h : NoName cs) (hcs : Flush cs) :
    Settles rules false (.rule parameter) cs .failed := by
  have hconst : Settles rules false (.rule constQualifier) ([] ++ cs) .failed :=
    settles_constQualifier_failed (by simp) (by decide) h
  have hgap : gap rules false cs = ([], cs) := layout_eq_nil hcs
  have hname : Settles rules false (.rule identifier) (gap rules false cs).2 .failed := by
    rw [hgap]
    exact settles_identifier_failed h
  exact .rule_failed (.seq (.opt_none hconst) (.seq_failed hname))

def argumentsText (ps : List Parameter) (rest : List Char) : List Char :=
  '(' :: ((", ".intercalate (ps.map Parameter.text)).toList ++ ')' :: rest)

theorem takes_arguments {ps : List Parameter} (hps : ∀ p ∈ ps, p.Legal) (rest : List Char) :
    Takes (.seq (.word "(") (.seq (.opt (.commaList (.rule parameter))) (.word ")")))
      (argumentsText ps rest) (ps.map .parameter) rest := by
  have hopening : Takes (.word "(") (argumentsText ps rest) []
      ((", ".intercalate (ps.map Parameter.text)).toList ++ ')' :: rest) := .word "("
  have hclosing : Takes (.word ")") (')' :: rest) [] rest := .word ")"
  have hflush : Flush (')' :: rest) := flush_mark (by decide) _
  cases ps with
  | nil =>
    have hnone : Settles rules false (.rule parameter) (')' :: rest) .failed :=
      settles_parameter_failed (noName_mark (by decide) _) hflush
    have hlist : Takes (.opt (.commaList (.rule parameter))) (')' :: rest) [] (')' :: rest) :=
      .opt_none (.seq_failed hnone)
    exact hopening.seq hflush (hlist.seq hflush hclosing)
  | cons p ps =>
    have hstart : Flush
        ((", ".intercalate ((p :: ps).map Parameter.text)).toList ++ ')' :: rest) := by
      rw [List.map_cons, toList_commas, List.append_assoc]
      exact flush_parameter (hps p List.mem_cons_self) _
    have hall := hopening.seq hstart ((takes_parameters hps rest).opt_some.seq hflush hclosing)
    rwa [List.append_nil, List.nil_append] at hall

theorem takes_basePostfix {x : String} (hx : IsIdentifier x) (rest : List Char) :
    Takes (.rule basePostfix) ('[' :: (x.toList ++ ']' :: rest)) [.basePostfix x] rest := by
  have hopening : Takes (.word "[") ('[' :: (x.toList ++ ']' :: rest)) []
      (x.toList ++ ']' :: rest) := .word "["
  have hclosing : Takes (.word "]") (']' :: rest) [] rest := .word "]"
  have hname := (takes_identifier hx (noName_mark (by decide) _)).seq (flush_mark (by decide) _)
    hclosing
  exact .openRule rfl (hopening.seq (flush_run hx _) hname) fun _ => rfl

theorem settles_basePostfix_failed (ps : List Parameter) (rest : List Char) :
    Settles rules false (.rule basePostfix) (argumentsText ps rest) .failed := by
  have hopening : Settles rules false (.word "[") (argumentsText ps rest) .failed :=
    .literal_failed (by simp [argumentsText])
  exact .rule_failed (.seq_failed hopening)

theorem takes_constructor {c : Constructor} (hc : c.Legal) (rest : List Char) :
    Takes (.rule constructor) (c.text.toList ++ rest) [.constructor c] rest := by
  obtain ⟨x, base, ps⟩ := c
  have hargs := takes_arguments hc.params rest
  have hno : NoName (argumentsText ps rest) := noName_mark (by decide) _
  have hflush : Flush (argumentsText ps rest) := flush_mark (by decide) _
  cases base with
  | none =>
    have hnone := Takes.opt_none (settles_basePostfix_failed ps rest)
    have hall := (takes_identifier hc.name hno).seq hflush (hnone.seq hflush hargs)
    have htext : (Constructor.text ⟨x, none, ps⟩).toList ++ rest =
        x.toList ++ argumentsText ps rest := by
      simp [Constructor.text, argumentsText]
    rw [htext]
    exact .openRule rfl hall fun parts => ofNode?_constructor parts ⟨x, none, ps⟩
  | some y =>
    have hbase := (takes_basePostfix (hc.base y rfl) (argumentsText ps rest)).opt_some
    have hbracket : NoName ('[' :: (y.toList ++ ']' :: argumentsText ps rest)) :=
      noName_mark (by decide) _
    have hall := (takes_identifier hc.name hbracket).seq (flush_mark (by decide) _)
      (hbase.seq hflush hargs)
    have htext : (Constructor.text ⟨x, some y, ps⟩).toList ++ rest =
        x.toList ++ '[' :: (y.toList ++ ']' :: argumentsText ps rest) := by
      simp [Constructor.text, argumentsText]
    rw [htext]
    exact .openRule rfl hall fun parts => ofNode?_constructor parts ⟨x, some y, ps⟩

theorem flush_constructor {c : Constructor} (hc : c.Legal) (rest : List Char) :
    Flush (c.text.toList ++ rest) := by
  rw [Constructor.text, String.toList_append, String.toList_append, String.toList_append,
    String.toList_append, List.append_assoc, List.append_assoc, List.append_assoc,
    List.append_assoc]
  exact flush_run hc.name _

/-- What stands behind the second bar of a row, up to its last character that is not white space. -/
def descriptionText (d : String) : List Char :=
  if d = "" then [] else ' ' :: d.toList

/-- The text of a row up to its last character that is not white space. -/
def rowText (width : Nat) (r : ClassRow) : List Char :=
  r.tag.toList ++ (List.replicate (width - r.tag.length + 1) ' ' ++
    '|' :: ' ' :: (r.constructor.text.toList ++ ' ' :: '|' :: descriptionText r.description))

theorem rowText_ne_nil (width : Nat) (r : ClassRow) : rowText width r ≠ [] := by
  simp [rowText]

theorem exists_textPadded (width : Nat) (r : ClassRow) :
    ∃ gap, Text.IsGap gap ∧ (r.textPadded width).toList = rowText width r ++ gap := by
  by_cases hd : r.description = ""
  · refine ⟨[' '], by simp [Text.IsGap, Text.isBlank, Text.blankRanges], ?_⟩
    simp [ClassRow.textPadded, Text.padded, rowText, descriptionText, hd, List.replicate_succ']
  · refine ⟨[], by simp [Text.IsGap], ?_⟩
    simp [ClassRow.textPadded, Text.padded, rowText, descriptionText, hd, List.replicate_succ']

/-- The description goes up to the end of the text. -/
theorem takes_descriptionText {d : String} (hd : Text.IsTrimmed d.toList)
    (hline : ∀ c ∈ d.toList, isInLine c) :
    Takes (.seq (.word "|") (.seq (.rule description) (.rule endOfInput)))
      ('|' :: descriptionText d) [.description d, .nothing] [] := by
  have hend : Takes (.rule endOfInput) [] [.nothing] [] := .openRule rfl .finish fun _ => rfl
  have hbar : Takes (.word "|") ('|' :: descriptionText d) [] (descriptionText d) := .word "|"
  have hrest := (takes_description hd hline).seq (by simp [Flush]) hend
  unfold descriptionText at hbar ⊢
  split at hbar
  · next hnone =>
    subst hnone
    exact hbar.seq (by simp [Flush]) hrest
  · next hsome =>
    rw [if_neg hsome]
    exact hbar.seq_blank (flush_of_isTrimmed hd) hrest

theorem takes_row {r : ClassRow} (hr : r.Legal) (width : Nat) :
    Takes (.rule row) (rowText width r) [.row r] [] := by
  obtain ⟨t, c, d⟩ := r
  have hlast := takes_descriptionText hr.description hr.description_inLine
  have hctor := (takes_constructor hr.constructor _).seq_blank (flush_mark (by decide) _) hlast
  have hbar : Takes (.word "|")
      ('|' :: ' ' :: (c.text.toList ++ ' ' :: '|' :: descriptionText d)) []
      (' ' :: (c.text.toList ++ ' ' :: '|' :: descriptionText d)) := .word "|"
  have hbehind := hbar.seq_blank (flush_constructor hr.constructor _) hctor
  have hgap : ∀ e ∈ List.replicate (width - t.length + 1) ' ', isLayout e := fun e he =>
    List.eq_of_mem_replicate he ▸ (by decide)
  have hno : NoName (List.replicate (width - t.length + 1) ' ' ++
      '|' :: ' ' :: (c.text.toList ++ ' ' :: '|' :: descriptionText d)) := noName_mark (by decide) _
  have hall := (takes_tag hr.tag hno).seq_gap hgap (flush_mark (by decide) _) hbehind
  exact .openRule rfl (Takes.empty.seq (flush_run hr.tag _) hall) fun _ => rfl

def ranking : Ranking rules where
  rank
    | parameter | constructor | row => 1
    | _ => 0
  reads r := r ≠ endOfInput ∧ r ≠ description
  rank_lt r := by cases r <;> decide
  reads_body r := by cases r <;> decide
  startsBelow_body r := by cases r <;> decide

end ClassRule

namespace ClassTable

open Grammar
open Grammar.Tree (meaningsOf_singleton)

theorem readRow_rowText {r : ClassRow} (hr : r.Legal) (name : String) (n width : Nat) :
    readRow name n (ClassRule.rowText width r) = .ok r := by
  obtain ⟨parts, hsettles, hmeans⟩ := ClassRule.takes_row hr width
  obtain ⟨xs, rfl⟩ := exists_node_of_settles hsettles
  have hread : read? ClassRule.rules .row (ClassRule.rowText width r) = some (.node .row xs) :=
    read?_eq_some_of_settles ClassRule.layout_lossless ClassRule.ranking hsettles
  rw [meaningsOf_singleton] at hmeans
  rw [readRow, hread]
  simp only [rowOfTree, hmeans]

end ClassTable

end PbesLab

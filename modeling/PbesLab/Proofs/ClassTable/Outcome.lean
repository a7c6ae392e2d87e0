import PbesLab.Proofs.ClassTable.Conversion
import PbesLab.Proofs.ClassTable.RoundTrip
import PbesLab.Proofs.Grammar.Semantics

namespace PbesLab

namespace ClassRule

theorem repeatsRead_body (r : ClassRule) : (rules.body r).repeatsRead ranking.reads := by
  cases r <;> decide

variable {cs : List Char}

theorem parses_iff {res : Grammar.Result ClassRule} :
    Grammar.Parses rules false (.once (.rule .row)) cs res ↔
      Grammar.matchRule rules (Grammar.depthFor cs) false .row cs = res :=
  ranking.parses_iff layout_lossless repeatsRead_body

theorem read?_eq_some_iff {t : Grammar.Tree ClassRule} : Grammar.read? rules .row cs = some t ↔
    ∃ rest, Grammar.Parses rules false (.once (.rule .row)) cs (.matched [t] rest) :=
  ranking.read?_eq_some_iff layout_lossless repeatsRead_body

theorem read?_eq_none_iff : Grammar.read? rules .row cs = none ↔
    Grammar.Parses rules false (.once (.rule .row)) cs .failed :=
  ranking.read?_eq_none_iff layout_lossless repeatsRead_body

end ClassRule

namespace ClassTable

open Grammar (Parses matchRule depthFor)
open Grammar.Tree (Node nodes meaningsOf_eq_mapM meaningsOf_singleton)

def IsRow (line : List Char) : Prop :=
  ∃ parts rest, Parses ClassRule.rules false (.once (.rule .row)) line (.matched parts rest)

/-- The line has this row: the one that its tree is converted to. -/
def HasRow (line : List Char) (r : ClassRow) : Prop :=
  ∃ parts rest n, Parses ClassRule.rules false (.once (.rule .row)) line (.matched parts rest) ∧
    nodes parts = [n] ∧ Conversion.rowOf n = .ok r

/-- The lines that are not blank, without the white space around them. -/
def rowLines (lines : List (List Char)) : List (List Char) :=
  (lines.map Text.trim).filter (· ≠ [])

variable {line : List Char}

theorem HasRow.isRow {r : ClassRow} (h : HasRow line r) : IsRow line := by
  obtain ⟨parts, rest, n, hparse, -, -⟩ := h
  exact ⟨parts, rest, hparse⟩

theorem HasRow.unique {r r' : ClassRow} (h : HasRow line r) (h' : HasRow line r') : r = r' := by
  obtain ⟨parts, rest, n, hparse, hn, hr⟩ := h
  obtain ⟨parts', rest', n', hparse', hn', hr'⟩ := h'
  obtain ⟨rfl, rfl⟩ := Grammar.Result.matched.inj (hparse.unique hparse')
  obtain rfl := List.singleton_inj.mp (hn.symm.trans hn')
  exact Except.ok.inj (hr.symm.trans hr')

theorem rowOfTree_eq_ok {xs : List (Grammar.Tree ClassRule)} {r : ClassRow}
    (h : Conversion.meaning ⟨.row, xs⟩ = .ok (.row r)) : rowOfTree (.node .row xs) = .ok r := by
  have hmeanings : (Grammar.Tree.node .row xs).meanings RowMeaning.ofNode? = .ok [.row r] := by
    rw [← meaningsOf_singleton, meaningsOf_eq_mapM]
    exact mapM_of_forall₂ (.cons h .nil)
  rw [rowOfTree, hmeanings]

/-- A line is a row, and then it is read both ways as the same row, or it is not, and then both say
so. -/
theorem readRow_cases (table : String) (number : Nat) (line : List Char) :
    (∃ r, HasRow line r ∧ readRow table number line = .ok r ∧
      Conversion.readRow table number line = .ok r) ∨
    ¬ IsRow line ∧
      readRow table number line =
        .error (.malformedRow table number (Grammar.report ClassRule.rules .row line)) ∧
      Conversion.readRow table number line =
        .error (.malformedRow table number (Grammar.report ClassRule.rules .row line)) := by
  cases hm : matchRule ClassRule.rules (depthFor line) false .row line with
  | starved =>
    exact absurd hm
      (ClassRule.ranking.matchRule_depthFor_ne_starved ClassRule.layout_lossless .row line)
  | failed =>
    have hfailed := ClassRule.parses_iff.mpr hm
    refine .inr ⟨fun ⟨parts, rest, h⟩ => ?_, ?_, ?_⟩
    · cases hfailed.unique h
    · rw [readRow, ClassRule.read?_eq_none_iff.mpr hfailed]
    · rw [Conversion.readRow, hm]
  | matched parts rest =>
    obtain ⟨xs, rfl⟩ := Grammar.exists_node_of_matchRule hm
    obtain ⟨n, hn, -, hcon⟩ := Conversion.only_of_row hm
    obtain rfl := List.singleton_inj.mp hn
    obtain ⟨r, hmeaning, hr⟩ := hcon
    have hparse := ClassRule.parses_iff.mpr hm
    refine .inl ⟨r, ⟨_, rest, _, hparse, rfl, hr⟩, ?_, ?_⟩
    · rw [readRow, ClassRule.read?_eq_some_iff.mpr ⟨rest, hparse⟩]
      exact rowOfTree_eq_ok hmeaning
    · rw [Conversion.readRow, hm]
      exact hr

theorem exists_hasRow (h : IsRow line) : ∃ r, HasRow line r := by
  obtain ⟨r, hr, -, -⟩ | ⟨hnot, -, -⟩ := readRow_cases "" 0 line
  · exact ⟨r, hr⟩
  · exact absurd h hnot

theorem HasRow.readRow {r : ClassRow} (h : HasRow line r) (table : String) (number : Nat) :
    ClassTable.readRow table number line = .ok r := by
  obtain ⟨r', hr', hread, -⟩ | ⟨hnot, -, -⟩ := readRow_cases table number line
  · rw [hread, h.unique hr']
  · exact absurd h.isRow hnot

theorem readRow_of_not_isRow (h : ¬ IsRow line) (table : String) (number : Nat) :
    readRow table number line =
      .error (.malformedRow table number (Grammar.report ClassRule.rules .row line)) := by
  obtain ⟨r, hr, -, -⟩ | ⟨-, hread, -⟩ := readRow_cases table number line
  · exact absurd hr.isRow h
  · exact hread

/-- All lines before this one are blank or rows, and it is neither. -/
structure FailsAfter (lines before : List (List Char)) (l : List Char) : Prop where
  stands : before ++ [l] <+: lines
  before : ∀ k ∈ before, Text.trim k ≠ [] → IsRow (Text.trim k)
  not_blank : Text.trim l ≠ []
  not_row : ¬ IsRow (Text.trim l)

variable {l : List Char} {ls before : List (List Char)}

theorem rowLines_blank (hl : Text.trim l = []) : rowLines (l :: ls) = rowLines ls := by
  simp [rowLines, hl]

theorem rowLines_cons (hl : Text.trim l ≠ []) :
    rowLines (l :: ls) = Text.trim l :: rowLines ls := by
  simp [rowLines, hl]

theorem forall_mem_rowLines {P : List Char → Prop} :
    (∀ k ∈ rowLines ls, P k) ↔ ∀ k ∈ ls, Text.trim k ≠ [] → P (Text.trim k) := by
  simp [rowLines]

theorem FailsAfter.cons {k : List Char} (h : FailsAfter ls before l)
    (hk : Text.trim k ≠ [] → IsRow (Text.trim k)) : FailsAfter (k :: ls) (k :: before) l :=
  ⟨List.cons_prefix_cons.mpr ⟨rfl, h.stands⟩, List.forall_mem_cons.mpr ⟨hk, h.before⟩, h.not_blank,
    h.not_row⟩

theorem FailsAfter.tail {k : List Char} (h : FailsAfter ls (k :: before) l) :
    ∃ ls', ls = k :: ls' ∧ FailsAfter ls' before l := by
  obtain ⟨after, rfl⟩ := h.stands
  exact ⟨_, rfl, List.prefix_append _ _, fun k' hk' => h.before k' (List.mem_cons_of_mem k hk'),
    h.not_blank, h.not_row⟩

/-- If not all lines are blank or rows, there is a first that is neither. -/
theorem exists_failsAfter (h : ¬ ∀ k ∈ rowLines ls, IsRow k) :
    ∃ before l, FailsAfter ls before l := by
  induction ls with
  | nil => exact absurd (by simp [rowLines]) h
  | cons k ls ih =>
    by_cases hk : Text.trim k ≠ [] → IsRow (Text.trim k)
    · rw [forall_mem_rowLines, List.forall_mem_cons, ← forall_mem_rowLines] at h
      obtain ⟨before, l, hfails⟩ := ih fun hls => h ⟨hk, hls⟩
      exact ⟨k :: before, l, hfails.cons hk⟩
    · obtain ⟨hblank, hrow⟩ := Classical.not_imp.mp hk
      exact ⟨[], k, List.prefix_append _ _, by simp, hblank, hrow⟩

theorem readRows_hasRow {r : ClassRow} (hl : Text.trim l ≠ []) (hr : HasRow (Text.trim l) r)
    (name : String) (n : Nat) :
    readRows name n (l :: ls) = (readRows name (n + 1) ls).map (r :: ·) := by
  rw [readRows, if_neg (by simpa using hl), hr.readRow]
  cases readRows name (n + 1) ls <;> rfl

theorem readRows_of_hasRow {rows : List ClassRow} (h : List.Forall₂ HasRow (rowLines ls) rows)
    (name : String) (n : Nat) : readRows name n ls = .ok rows := by
  induction ls generalizing n rows with
  | nil =>
    cases h
    rfl
  | cons l ls ih =>
    by_cases hl : Text.trim l = []
    · rw [readRows_blank hl]
      rw [rowLines_blank hl] at h
      exact ih h (n + 1)
    · rw [rowLines_cons hl] at h
      cases h with
      | cons hr hrows => rw [readRows_hasRow hl hr, ih hrows (n + 1)]; rfl

/-- The number of the line that fails counts the lines before it, blank or not. -/
theorem FailsAfter.readRows (h : FailsAfter ls before l) (name : String) (n : Nat) :
    ClassTable.readRows name n ls = .error (.malformedRow name (n + before.length)
      (Grammar.report ClassRule.rules .row (Text.trim l))) := by
  induction before generalizing ls n with
  | nil =>
    obtain ⟨after, rfl⟩ := h.stands
    change ClassTable.readRows name n (l :: after) = _
    rw [ClassTable.readRows, if_neg (by simpa using h.not_blank), readRow_of_not_isRow h.not_row]
    rfl
  | cons k before ih =>
    obtain ⟨ls, rfl, hmore⟩ := h.tail
    have hcount : n + (k :: before).length = n + 1 + before.length := by
      rw [List.length_cons]
      omega
    rw [hcount]
    by_cases hk : Text.trim k = []
    · rw [readRows_blank hk]
      exact ih hmore (n + 1)
    · obtain ⟨r, hr⟩ := exists_hasRow (h.before k List.mem_cons_self hk)
      rw [readRows_hasRow hk hr, ih hmore (n + 1)]
      rfl

theorem readRows_eq_ok {rows : List ClassRow} {name : String} {n : Nat} :
    readRows name n ls = .ok rows ↔ List.Forall₂ HasRow (rowLines ls) rows := by
  refine ⟨fun h => ?_, fun h => readRows_of_hasRow h name n⟩
  by_cases hall : ∀ k ∈ rowLines ls, IsRow k
  · obtain ⟨rows', hrows'⟩ := exists_forall₂ fun k hk => exists_hasRow (hall k hk)
    obtain rfl := Except.ok.inj (h.symm.trans (readRows_of_hasRow hrows' name n))
    exact hrows'
  · obtain ⟨before, l, hfails⟩ := exists_failsAfter hall
    cases h.symm.trans (hfails.readRows name n)

theorem readRows_eq_error {f : TableFault} {name : String} {n : Nat} :
    readRows name n ls = .error f ↔ ∃ before l, FailsAfter ls before l ∧
      f = .malformedRow name (n + before.length)
        (Grammar.report ClassRule.rules .row (Text.trim l)) := by
  constructor
  · intro h
    by_cases hall : ∀ k ∈ rowLines ls, IsRow k
    · obtain ⟨rows, hrows⟩ := exists_forall₂ fun k hk => exists_hasRow (hall k hk)
      cases h.symm.trans (readRows_of_hasRow hrows name n)
    · obtain ⟨before, l, hfails⟩ := exists_failsAfter hall
      exact ⟨before, l, hfails, Except.error.inj (h.symm.trans (hfails.readRows name n))⟩
  · rintro ⟨before, l, hfails, rfl⟩
    exact hfails.readRows name n

/-- The same result, or the same report on a line. -/
inductive Alike {α : Type} : Except TableFault α → Except Misfit α → Prop
  | ok (a : α) : Alike (.ok a) (.ok a)
  | malformedRow (table : String) (row : Nat) (report : Grammar.Report) :
      Alike (.error (.malformedRow table row report)) (.error (.malformedRow table row report))

theorem Alike.bind {α β : Type} {x : Except TableFault α} {y : Except Misfit α}
    {f : α → Except TableFault β} {g : α → Except Misfit β} (h : Alike x y)
    (hf : ∀ a, Alike (f a) (g a)) : Alike (x >>= f) (y >>= g) := by
  cases h with
  | ok a => exact hf a
  | malformedRow table row report => exact .malformedRow table row report

theorem Alike.eq_ok_iff {α : Type} {x : Except TableFault α} {y : Except Misfit α} (h : Alike x y)
    {a : α} : y = .ok a ↔ x = .ok a := by
  cases h <;> simp

theorem Alike.eq_error_iff {α : Type} {x : Except TableFault α} {y : Except Misfit α}
    (h : Alike x y) {m : Misfit} : y = .error m ↔ ∃ table n report,
      m = .malformedRow table n report ∧ x = .error (.malformedRow table n report) := by
  cases h with
  | ok a => simp
  | malformedRow table row report => simp [eq_comm]

theorem alike_readRow (table : String) (number : Nat) (line : List Char) :
    Alike (readRow table number line) (Conversion.readRow table number line) := by
  obtain ⟨r, -, hread, hconv⟩ | ⟨-, hread, hconv⟩ := readRow_cases table number line
  · rw [hread, hconv]
    exact .ok r
  · rw [hread, hconv]
    exact .malformedRow _ _ _

theorem alike_readRows (name : String) (n : Nat) (ls : List (List Char)) :
    Alike (readRows name n ls) (Conversion.readRows name n ls) := by
  induction ls generalizing n with
  | nil => exact .ok []
  | cons l ls ih =>
    rw [readRows, Conversion.readRows]
    split
    · exact ih (n + 1)
    · exact (alike_readRow _ _ _).bind fun r => (ih (n + 1)).bind fun rows => .ok (r :: rows)

theorem alike_read (name text : String) :
    Alike (read name text) (Conversion.read name text) :=
  (alike_readRows name 1 _).bind fun rows => .ok (ClassTable.mk name rows)

theorem read_eq_error {name text : String} {f : TableFault} :
    read name text = .error f ↔ readRows name 1 (Text.lines text.toList) = .error f := by
  unfold read
  cases readRows name 1 (Text.lines text.toList) with
  | error e => simp [bind, Except.bind]
  | ok rows => simp [bind, Except.bind, pure, Except.pure]

/-- A text is a table just if each of its lines is blank or, trimmed, a row. The table has the rows
of these lines in order, and the row of a line is told by that line alone. Otherwise the first line
that is neither is reported with the name of the table and its place among all lines, from 1 on.
From the root down the outcome is the same: whatever a rule asks of a tree is there, and nothing
else is. -/
theorem read_decided_by_lines (name text : String) :
    ((∃ t, read name text = .ok t) ↔
      ∀ l ∈ Text.lines text.toList, Text.trim l ≠ [] → IsRow (Text.trim l)) ∧
    (∀ t, read name text = .ok t ↔
      t.name = name ∧ List.Forall₂ HasRow (rowLines (Text.lines text.toList)) t.rows) ∧
    (∀ line r r', HasRow line r → HasRow line r' → r = r') ∧
    (∀ f, read name text = .error f ↔
      ∃ before l, FailsAfter (Text.lines text.toList) before l ∧
        f = .malformedRow name (before.length + 1)
          (Grammar.report ClassRule.rules .row (Text.trim l))) ∧
    (∀ t, Conversion.read name text = .ok t ↔ read name text = .ok t) ∧
    ∀ m, Conversion.read name text = .error m ↔ ∃ n report,
      m = .malformedRow name n report ∧ read name text = .error (.malformedRow name n report) := by
  have hok (t : ClassTable) : read name text = .ok t ↔
      t.name = name ∧ List.Forall₂ HasRow (rowLines (Text.lines text.toList)) t.rows := by
    rw [read_eq_ok, readRows_eq_ok]
  have herror (f : TableFault) : read name text = .error f ↔
      ∃ before l, FailsAfter (Text.lines text.toList) before l ∧
        f = .malformedRow name (before.length + 1)
          (Grammar.report ClassRule.rules .row (Text.trim l)) := by
    simp only [read_eq_error, readRows_eq_error, Nat.add_comm 1]
  refine ⟨?_, hok, fun _ _ _ => HasRow.unique, herror, ?_, ?_⟩
  · rw [← forall_mem_rowLines (P := IsRow)]
    constructor
    · rintro ⟨t, ht⟩ k hk
      obtain ⟨r, -, hr⟩ := exists_of_forall₂ ((hok t).mp ht).2 hk
      exact hr.isRow
    · intro hall
      obtain ⟨rows, hrows⟩ := exists_forall₂ fun k hk => exists_hasRow (hall k hk)
      exact ⟨⟨name, rows⟩, (hok _).mpr ⟨rfl, hrows⟩⟩
  · intro t
    exact (alike_read name text).eq_ok_iff
  · intro m
    rw [(alike_read name text).eq_error_iff]
    constructor
    · rintro ⟨table, n, report, rfl, hread⟩
      obtain ⟨before, l, -, hfault⟩ := (herror _).mp hread
      obtain ⟨rfl, -, -⟩ := TableFault.malformedRow.inj hfault
      exact ⟨n, report, rfl, hread⟩
    · rintro ⟨n, report, rfl, hread⟩
      exact ⟨name, n, report, rfl, hread⟩

/-- The line that fails is the third of the text, though the first is blank. -/
example : (match read "BROKEN_CLASSES"
    "\nOk | ok() | fine\r\nBroken | broken(const x&) | missing name\n" with
      | .error (.malformedRow table n _) => some (table, n)
      | _ => none) = some ("BROKEN_CLASSES", 3) := by
  decide +kernel

end ClassTable

end PbesLab

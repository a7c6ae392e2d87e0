import PbesLab.Proofs.ClassTable.Printing
import Mathlib.Data.List.Basic

namespace PbesLab

open ClassRule (rowText descriptionText)

namespace ClassTable

theorem readRows_blank {l : List Char} (hl : Text.trim l = []) (name : String) (n : Nat)
    (ls : List (List Char)) : readRows name n (l :: ls) = readRows name (n + 1) ls := by
  simp [readRows, hl]

theorem readRows_row {l : List Char} (hl : Text.trim l ≠ []) {name : String} {n : Nat}
    {ls : List (List Char)} {rows : List ClassRow} :
    readRows name n (l :: ls) = .ok rows ↔ ∃ r more, readRow name n (Text.trim l) = .ok r ∧
      readRows name (n + 1) ls = .ok more ∧ rows = r :: more := by
  rw [readRows, if_neg (by simpa using hl)]
  cases readRow name n (Text.trim l) with
  | error e => simp [bind, Except.bind]
  | ok r =>
    cases readRows name (n + 1) ls with
    | error e => simp [bind, Except.bind]
    | ok more => simp [bind, Except.bind, pure, Except.pure, eq_comm]

/-- Every row that is read is legal. -/
theorem legal_of_readRows {name : String} {n : Nat} {ls : List (List Char)} {rows : List ClassRow}
    (h : readRows name n ls = .ok rows) : ∀ r ∈ rows, r.Legal := by
  induction ls generalizing n rows with
  | nil =>
    obtain rfl := Except.ok.inj h
    simp
  | cons l ls ih =>
    by_cases hl : Text.trim l = []
    · rw [readRows_blank hl] at h
      exact ih h
    · obtain ⟨r, more, hr, hmore, rfl⟩ := (readRows_row hl).mp h
      have hline : ClassRule.Flush (Text.trim l) :=
        ClassRule.flush_of_isTrimmed (Text.isTrimmed_trim l)
      exact List.forall_mem_cons.mpr ⟨legal_of_readRow hline hr, ih hmore⟩

theorem read_eq_ok {name text : String} {t : ClassTable} :
    read name text = .ok t ↔
      t.name = name ∧ readRows name 1 (Text.lines text.toList) = .ok t.rows := by
  obtain ⟨x, rows⟩ := t
  unfold read
  cases readRows name 1 (Text.lines text.toList) with
  | error e => simp [bind, Except.bind]
  | ok more => simp [bind, Except.bind, pure, Except.pure, eq_comm]

end ClassTable

theorem ClassRule.one_line_run {first : Char → Bool} {w : List Char}
    (hw : Grammar.IsRun first isNameChar w) : '\n' ∉ w := fun h =>
  absurd (hw.all _ h) (by decide)

theorem Parameter.Legal.one_line {p : Parameter} (hp : p.Legal) : '\n' ∉ p.text.toList := by
  have hsort := ClassRule.one_line_run hp.sort
  have hname := ClassRule.one_line_run hp.name
  cases hconst : p.isConst <;> simp [Parameter.text, hconst, hsort, hname]

theorem Constructor.Legal.one_line {c : Constructor} (hc : c.Legal) : '\n' ∉ c.text.toList := by
  obtain ⟨x, base, ps⟩ := c
  have hparams : '\n' ∉ (", ".intercalate (ps.map Parameter.text)).toList := by
    cases ps with
    | nil => simp
    | cons p ps =>
      have hps : ∀ q ∈ p :: ps, '\n' ∉ q.text.toList := fun q hq => (hc.params q hq).one_line
      rw [List.map_cons, ClassRule.toList_commas]
      simpa using hps
  simp only [Constructor.text, String.toList_append, List.mem_append, not_or]
  refine ⟨⟨⟨⟨ClassRule.one_line_run hc.name, ?_⟩, by decide⟩, hparams⟩, by decide⟩
  cases base with
  | none => decide
  | some y => simp [ClassRule.one_line_run (hc.base y rfl)]

namespace ClassRow

theorem Legal.one_line {r : ClassRow} (hr : r.Legal) (width : Nat) :
    '\n' ∉ (r.textPadded width).toList := by
  have htag := ClassRule.one_line_run hr.tag
  have hctor := hr.constructor.one_line
  have hdescription : '\n' ∉ r.description.toList := fun h =>
    absurd (hr.description_inLine _ h) (by decide)
  simp [textPadded, Text.padded, htag, hctor, hdescription]

theorem Legal.isTrimmed {r : ClassRow} (hr : r.Legal) (width : Nat) :
    Text.IsTrimmed (rowText width r) := by
  constructor
  · have hstart := hr.tag.first
    have hall := hr.tag.all
    cases htag : r.tag.toList with
    | nil => simp [htag] at hstart
    | cons d w =>
      rw [htag] at hall
      simpa [rowText, htag] using
        ClassRule.not_isBlank_of_isNameChar (hall d List.mem_cons_self)
  · have hlast : (rowText width r).getLast? =
        ('|' :: descriptionText r.description).getLast? := by
      rw [← List.getLast?_append_of_ne_nil (r.tag.toList ++
        List.replicate (width - r.tag.length + 1) ' ' ++ '|' :: ' ' :: r.constructor.text.toList ++
          [' ']) (List.cons_ne_nil _ _)]
      simp [rowText]
    rw [hlast]
    unfold descriptionText
    split
    · simp [Text.isBlank, Text.blankRanges]
    · next hsome =>
      have hne : r.description.toList ≠ [] := by simpa using hsome
      have hbar : ('|' :: ' ' :: r.description.toList).getLast? = r.description.toList.getLast? :=
        List.getLast?_append_of_ne_nil ['|', ' '] hne
      rw [hbar]
      exact hr.description.2

/-- Between white space, the text of a row is trimmed to what the grammar reads. -/
theorem Legal.trim_line {r : ClassRow} (hr : r.Legal) (width : Nat) {before after : List Char}
    (hbefore : Text.IsGap before) (hafter : Text.IsGap after) :
    Text.trim (before ++ (r.textPadded width).toList ++ after) = rowText width r := by
  obtain ⟨gap, hgap, htext⟩ := ClassRule.exists_textPadded width r
  have hbehind : Text.IsGap (gap ++ after) := fun c hc =>
    (List.mem_append.mp hc).elim (hgap c) (hafter c)
  calc
    _ = Text.trim (before ++ rowText width r ++ (gap ++ after)) := by
      rw [htext]
      simp
    _ = Text.trim (rowText width r) := Text.trim_surrounded hbefore hbehind _
    _ = rowText width r := Text.trim_eq_self (hr.isTrimmed width)

end ClassRow

namespace ClassTable

open Text (IsLineGap)

/-- A line of white space, or one with the text of a row between white space. -/
inductive LineOf : List ClassRow → List Char → Prop
  | blank {gap} (hgap : IsLineGap gap) : LineOf [] gap
  | row {before after r} (width : Nat) (hbefore : IsLineGap before) (hafter : IsLineGap after) :
      LineOf [r] (before ++ (ClassRow.textPadded width r).toList ++ after)

/-- A text whose lines are blank or hold the rows, in order. The last line may lack its end. -/
inductive LaidOut : List ClassRow → List Char → Prop
  | last {rows line} (h : LineOf rows line) : LaidOut rows line
  | line {rows more line rest} (h : LineOf rows line) (hmore : LaidOut more rest) :
      LaidOut (rows ++ more) (line ++ '\n' :: rest)

namespace LineOf

variable {rows : List ClassRow} {line : List Char}

theorem one_line (h : LineOf rows line) (hrows : ∀ r ∈ rows, r.Legal) : '\n' ∉ line := by
  cases h with
  | blank hgap => exact hgap.one_line
  | row width hbefore hafter =>
    have hr := (hrows _ List.mem_cons_self).one_line width
    simp [hbefore.one_line, hafter.one_line, hr]

/-- A line is read as the row that it holds, wherever its carriage return went. -/
theorem readRows (h : LineOf rows line) (hrows : ∀ r ∈ rows, r.Legal) {l : List Char}
    (hl : Text.trim l = Text.trim line) {name : String} {ls : List (List Char)}
    {more : List ClassRow} (hmore : ∀ n, ClassTable.readRows name n ls = .ok more) (n : Nat) :
    ClassTable.readRows name n (l :: ls) = .ok (rows ++ more) := by
  cases h with
  | blank hgap =>
    rw [ClassTable.readRows_blank (hl.trans (Text.trim_eq_nil hgap.isGap))]
    exact hmore (n + 1)
  | @row before after r width hbefore hafter =>
    have hr : r.Legal := hrows r List.mem_cons_self
    have htrim : Text.trim l = rowText width r :=
      hl.trans (hr.trim_line width hbefore.isGap hafter.isGap)
    have hne : Text.trim l ≠ [] := htrim ▸ ClassRule.rowText_ne_nil width r
    refine (ClassTable.readRows_row hne).mpr ⟨r, more, ?_, hmore (n + 1), rfl⟩
    rw [htrim]
    exact ClassTable.readRow_rowText hr name n width

end LineOf

namespace LaidOut

variable {rows : List ClassRow} {cs : List Char}

theorem readRows (h : LaidOut rows cs) (hrows : ∀ r ∈ rows, r.Legal) (name : String) (n : Nat) :
    ClassTable.readRows name n (Text.lines cs) = .ok rows := by
  induction h generalizing n with
  | @last rows line h =>
    by_cases hne : line = []
    · cases h with
      | blank hgap =>
        subst hne
        rfl
      | row width hbefore hafter =>
        have htrim := (hrows _ List.mem_cons_self).trim_line width hbefore.isGap hafter.isGap
        rw [hne] at htrim
        exact absurd htrim.symm (ClassRule.rowText_ne_nil width _)
    · rw [Text.lines_eq_singleton (h.one_line hrows) hne]
      have hread := h.readRows hrows rfl (fun n => (rfl : ClassTable.readRows name n [] = .ok [])) n
      rwa [List.append_nil] at hread
  | line h hmore ih =>
    obtain ⟨hrows, hmorerows⟩ := List.forall_mem_append.mp hrows
    obtain ⟨l, hl, htrim⟩ := Text.exists_lines_trim (h.one_line hrows) _
    rw [hl]
    exact h.readRows hrows htrim (fun n => ih hmorerows n) n

/-- The rows one per line, each with its tag filled up to some width. -/
theorem of_rows (width : Nat) (rows : List ClassRow) :
    LaidOut rows (String.join (rows.map fun r => r.textPadded width ++ "\n")).toList := by
  induction rows with
  | nil => exact .last (.blank (by simp [IsLineGap]))
  | cons r rows ih =>
    have hline : LineOf [r] ([] ++ (r.textPadded width).toList ++ []) :=
      .row width (by simp [IsLineGap]) (by simp [IsLineGap])
    simpa [String.join_cons] using LaidOut.line hline ih

end LaidOut

/-- A table that was read is read again from its text, and from any layout of its rows: the lines in
order, with white space around them and blank lines anywhere. -/
theorem read_of_laidOut {name text : String} {t : ClassTable} (h : read name text = .ok t) :
    read name t.text = .ok t ∧
      ∀ layout : String, LaidOut t.rows layout.toList → read name layout = .ok t := by
  obtain ⟨hname, hread⟩ := read_eq_ok.mp h
  have hrows := legal_of_readRows hread
  have hlaidOut (layout : String) (hlayout : LaidOut t.rows layout.toList) :
      read name layout = .ok t := read_eq_ok.mpr ⟨hname, hlayout.readRows hrows name 1⟩
  exact ⟨hlaidOut t.text (.of_rows t.tagWidth t.rows), hlaidOut⟩

/-- A row with sorts and a name that are spelled like the qualifier, and a bar in its
description. -/
def plusRow : ClassRow :=
  ⟨"plus", ⟨"plus_op", some "_base",
    [⟨true, "int", "x"⟩, ⟨true, "const", "y"⟩, ⟨false, "constant", "const"⟩]⟩,
    "sums | of\u00a0both"⟩

def varRow : ClassRow :=
  ⟨"v", ⟨"variable", none, []⟩, ""⟩

def expressionTable : ClassTable :=
  ⟨"EXPRESSION_CLASSES", [plusRow, varRow]⟩

def expressionText : String :=
  " \t\r\n\tplus | plus_op[_base](const int& x, const const& y, constant& const) | " ++
    "sums | of\u00a0both \r\n\nv    | variable() | \u2003"

theorem expressionText_laidOut : LaidOut expressionTable.rows expressionText.toList := by
  have htext : expressionText.toList = [' ', '\t', '\r'] ++ '\n' ::
      (['\t'] ++ (plusRow.textPadded 4).toList ++ [' ', '\r'] ++ '\n' ::
        ([] ++ '\n' :: ([] ++ (varRow.textPadded 4).toList ++ ['\u2003']))) := by
    decide +kernel
  rw [htext]
  have hplus : LineOf [plusRow] (['\t'] ++ (plusRow.textPadded 4).toList ++ [' ', '\r']) :=
    .row 4 (by decide) (by decide)
  have hvar : LineOf [varRow] ([] ++ (varRow.textPadded 4).toList ++ ['\u2003']) :=
    .row 4 (by decide) (by decide)
  exact .line (.blank (by decide)) (.line hplus (.line (.blank (by decide)) (.last hvar)))

theorem expressionText_read :
    read "EXPRESSION_CLASSES" expressionText = .ok expressionTable ∧
      read "EXPRESSION_CLASSES" expressionTable.text = .ok expressionTable ∧
        ∀ layout : String, LaidOut expressionTable.rows layout.toList →
          read "EXPRESSION_CLASSES" layout = .ok expressionTable := by
  have hrows : ∀ r ∈ expressionTable.rows, r.Legal := by decide +kernel
  have hread : read "EXPRESSION_CLASSES" expressionText = .ok expressionTable :=
    read_eq_ok.mpr ⟨rfl, expressionText_laidOut.readRows hrows _ 1⟩
  exact ⟨hread, read_of_laidOut hread⟩

end ClassTable

end PbesLab

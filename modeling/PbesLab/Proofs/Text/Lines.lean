import PbesLab.Text.Pieces
import Mathlib.Data.List.TakeWhile

namespace PbesLab.Text

def IsGap (cs : List Char) : Prop :=
  ∀ c ∈ cs, isBlank c

theorem trimRight_append {after : List Char} (h : IsGap after) (cs : List Char) :
    trimRight isBlank (cs ++ after) = trimRight isBlank cs := by
  have hdrop : ∀ c ∈ after.reverse, isBlank c := fun c hc => h c (List.mem_reverse.mp hc)
  rw [trimRight, List.reverse_append, List.dropWhile_append_of_pos hdrop, trimRight]

/-- White space around a text makes no difference to what is trimmed. -/
theorem trim_surrounded {before after : List Char} (hb : IsGap before) (ha : IsGap after)
    (cs : List Char) : trim (before ++ cs ++ after) = trim cs := by
  unfold trim
  rw [List.append_assoc, List.dropWhile_append_of_pos hb, List.dropWhile_append]
  split
  · next hnil =>
    -- the text is white space itself
    rw [List.isEmpty_iff.mp hnil, List.dropWhile_eq_nil_iff.mpr ha]
  · exact trimRight_append ha _

theorem trim_append {after : List Char} (ha : IsGap after) (cs : List Char) :
    trim (cs ++ after) = trim cs :=
  trim_surrounded (show IsGap [] from by simp [IsGap]) ha cs

theorem trim_eq_nil {gap : List Char} (h : IsGap gap) : trim gap = [] := by
  rw [trim, List.dropWhile_eq_nil_iff.mpr h]
  rfl

theorem exists_trimRight (cs : List Char) :
    ∃ after, IsGap after ∧ cs = trimRight isBlank cs ++ after := by
  refine ⟨(cs.reverse.takeWhile isBlank).reverse, ?_, ?_⟩
  · intro c hc
    exact List.mem_takeWhile_imp (List.mem_reverse.mp hc)
  · rw [trimRight, ← List.reverse_append, List.takeWhile_append_dropWhile, List.reverse_reverse]

/-- Trimming takes white space off both ends. -/
theorem exists_trim (cs : List Char) :
    ∃ before after, IsGap before ∧ IsGap after ∧ cs = before ++ trim cs ++ after := by
  obtain ⟨after, hafter, hcs⟩ := exists_trimRight (cs.dropWhile isBlank)
  refine ⟨cs.takeWhile isBlank, after, fun c hc => List.mem_takeWhile_imp hc, hafter, ?_⟩
  rw [trim, List.append_assoc, ← hcs, List.takeWhile_append_dropWhile]

def IsTrimmed (cs : List Char) : Prop :=
  (∀ c ∈ cs.head?, ¬ isBlank c) ∧ ∀ c ∈ cs.getLast?, ¬ isBlank c

instance (cs : List Char) : Decidable (IsTrimmed cs) :=
  decidable_of_iff (cs.head?.all (!isBlank ·) ∧ cs.getLast?.all (!isBlank ·))
    (by simp [IsTrimmed, Option.all_eq_true])

theorem trim_eq_self {cs : List Char} (h : IsTrimmed cs) : trim cs = cs := by
  have hleft : cs.dropWhile isBlank = cs := by
    cases cs with
    | nil => rfl
    | cons c cs => exact List.dropWhile_cons_of_neg (h.1 c rfl)
  rw [trim, hleft, trimRight]
  cases hcs : cs.reverse with
  | nil => simpa using hcs
  | cons c ds =>
    have hlast : c ∈ cs.getLast? := by
      rw [← List.head?_reverse, hcs]
      rfl
    rw [List.dropWhile_cons_of_neg (h.2 c hlast), ← hcs, List.reverse_reverse]

theorem isTrimmed_trim (cs : List Char) : IsTrimmed (trim cs) := by
  have hhead {c : Char} {ds : List Char} (h : cs.dropWhile isBlank = c :: ds) : ¬ isBlank c := by
    have hnot := List.head?_dropWhile_not isBlank cs
    rw [h] at hnot
    simpa using hnot
  constructor
  · intro c hc
    -- what is taken off the end leaves the first character alone
    obtain ⟨after, -, hcs⟩ := exists_trimRight (cs.dropWhile isBlank)
    obtain ⟨ds, hds⟩ := List.head?_eq_some_iff.mp hc
    have hdrop : cs.dropWhile isBlank = c :: (ds ++ after) := by
      rw [hcs, ← trim, hds, List.cons_append]
    exact hhead hdrop
  · intro c hc
    have hnot := List.head?_dropWhile_not isBlank (cs.dropWhile isBlank).reverse
    rw [trim, trimRight, List.getLast?_reverse, Option.mem_def] at hc
    rw [hc] at hnot
    simpa using hnot

/-- White space within a line. -/
def IsLineGap (cs : List Char) : Prop :=
  ∀ c ∈ cs, isBlank c ∧ c ≠ '\n'

instance (cs : List Char) : Decidable (IsLineGap cs) :=
  decidable_of_iff (cs.all fun c => isBlank c && c ≠ '\n') (by simp [IsLineGap])

theorem IsLineGap.isGap {cs : List Char} (h : IsLineGap cs) : IsGap cs :=
  fun c hc => (h c hc).1

theorem IsLineGap.one_line {cs : List Char} (h : IsLineGap cs) : '\n' ∉ cs :=
  fun hc => (h _ hc).2 rfl

theorem lines_cons {c : Char} {cs : List Char} (hc : c ≠ '\n')
    (hcs : c = '\r' → cs.head? ≠ some '\n') :
    lines (c :: cs) = (c :: (lines cs).headD []) :: (lines cs).tail := by
  rw [lines]
  · cases lines cs <;> rfl
  · rintro rfl
    exact hc rfl
  · rintro ds rfl rfl
    exact hcs rfl rfl

/-- A line up to its line feed is read without the carriage return before that, if there is one. -/
theorem exists_lines_append {line : List Char} (h : '\n' ∉ line) (rest : List Char) :
    ∃ l, lines (line ++ '\n' :: rest) = l :: lines rest ∧ (line = l ∨ line = l ++ ['\r']) := by
  induction line with
  | nil => exact ⟨[], rfl, .inl rfl⟩
  | cons c line ih =>
    obtain ⟨hc, hline⟩ := not_or.mp (List.mem_cons.not.mp h)
    obtain ⟨l, hl, hend⟩ := ih hline
    by_cases hlast : c = '\r' ∧ line = []
    · obtain ⟨rfl, rfl⟩ := hlast
      exact ⟨[], rfl, .inr rfl⟩
    · refine ⟨c :: l, ?_, hend.imp (congrArg _) (congrArg _)⟩
      rw [List.cons_append, lines_cons (Ne.symm hc), hl]
      · rfl
      · rintro rfl hhead
        cases line with
        | nil => exact hlast ⟨rfl, rfl⟩
        | cons d line => exact hline (by simp_all)

/-- Up to white space, a line is read as it stands. -/
theorem exists_lines_trim {line : List Char} (h : '\n' ∉ line) (rest : List Char) :
    ∃ l, lines (line ++ '\n' :: rest) = l :: lines rest ∧ trim l = trim line := by
  obtain ⟨l, hl, rfl | rfl⟩ := exists_lines_append h rest
  · exact ⟨line, hl, rfl⟩
  · have hreturn : IsGap ['\r'] := fun c hc => List.mem_singleton.mp hc ▸ (by decide)
    exact ⟨l, hl, (trim_append hreturn l).symm⟩

theorem lines_eq_singleton {line : List Char} (h : '\n' ∉ line) (hne : line ≠ []) :
    lines line = [line] := by
  induction line with
  | nil => exact absurd rfl hne
  | cons c line ih =>
    obtain ⟨hc, hline⟩ := not_or.mp (List.mem_cons.not.mp h)
    rw [lines_cons (Ne.symm hc)]
    · cases line with
      | nil => rfl
      | cons d line => rw [ih hline (List.cons_ne_nil d line)]; rfl
    · intro _ hhead
      exact hline (List.mem_of_head? hhead)

end PbesLab.Text

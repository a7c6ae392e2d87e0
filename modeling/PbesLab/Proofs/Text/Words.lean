import PbesLab.Proofs.Text.Lines
import PbesLab.Proofs.Text.Pieces
import Mathlib.Data.List.DropRight

namespace PbesLab.Text

@[simp] theorem words_nil : words [] = [] := rfl

theorem words_append_blank {c : Char} (hc : isBlank c) (xs ys : List Char) :
    words (xs ++ c :: ys) = words xs ++ words ys := by
  unfold words
  rw [pieces_append_cut hc, List.filter_append]

theorem words_cons_blank {c : Char} (hc : isBlank c) (cs : List Char) :
    words (c :: cs) = words cs :=
  words_append_blank hc [] cs

theorem words_gap {gap : List Char} (h : IsGap gap) : words gap = [] := by
  induction gap with
  | nil => rfl
  | cons c gap ih =>
    obtain ⟨hc, hgap⟩ := List.forall_mem_cons.mp h
    rw [words_cons_blank hc, ih hgap]

theorem words_append_gap {gap : List Char} (h : IsGap gap) (cs : List Char) :
    words (cs ++ gap) = words cs := by
  cases gap with
  | nil => rw [List.append_nil]
  | cons c gap =>
    obtain ⟨hc, hgap⟩ := List.forall_mem_cons.mp h
    rw [words_append_blank hc, words_gap hgap, List.append_nil]

theorem words_gap_append {gap : List Char} (h : IsGap gap) (cs : List Char) :
    words (gap ++ cs) = words cs := by
  induction gap with
  | nil => rfl
  | cons c gap ih =>
    obtain ⟨hc, hgap⟩ := List.forall_mem_cons.mp h
    rw [List.cons_append, words_cons_blank hc, ih hgap]

/-- Trimming takes no words away. -/
theorem words_trim (cs : List Char) : words (trim cs) = words cs := by
  obtain ⟨before, after, hbefore, hafter, hcs⟩ := exists_trim cs
  conv_rhs => rw [hcs, words_append_gap hafter, words_gap_append hbefore]

theorem words_run {w : List Char} (hne : w ≠ []) (h : ∀ c ∈ w, ¬ isBlank c) : words w = [w] := by
  have hpieces : pieces isBlank w = [w] :=
    pieces_of_uncut fun c hc => by simpa using h c hc
  simp [words, hpieces, hne]

/-- A text up to its first line feed, or all of it. -/
theorem exists_first_line (cs : List Char) :
    '\n' ∉ cs ∨ ∃ line rest, '\n' ∉ line ∧ cs = line ++ '\n' :: rest := by
  by_cases h : '\n' ∈ cs
  · obtain ⟨line, rest, rfl, hline⟩ := List.eq_append_cons_of_mem h
    exact .inr ⟨line, rest, hline, rfl⟩
  · exact .inl h

/-- Line ends are white space, so that no word goes over the end of a line. -/
theorem words_eq_flatMap_lines (cs : List Char) : words cs = (lines cs).flatMap words := by
  induction h : cs.length using Nat.strong_induction_on generalizing cs with
  | _ n ih =>
    subst h
    obtain hline | ⟨line, rest, hline, rfl⟩ := exists_first_line cs
    · by_cases hne : cs = []
      · subst hne
        rfl
      · rw [lines_eq_singleton hline hne, List.flatMap_singleton]
    · obtain ⟨l, hlines, htrim⟩ := exists_lines_trim hline rest
      have hl : words l = words line := by rw [← words_trim l, htrim, words_trim]
      have hrest := ih rest.length (by simp; omega) rest rfl
      rw [words_append_blank (by decide), hlines, List.flatMap_cons, hl, hrest]

/-- The last of the maximal runs of characters that are not white space. -/
structure IsLastRun (w cs : List Char) : Prop where
  ne_nil : w ≠ []
  all : ∀ c ∈ w, ¬ isBlank c
  maximal : ∃ before after, cs = before ++ w ++ after ∧ (∀ c ∈ before.getLast?, isBlank c) ∧
    IsGap after

theorem IsLastRun.getLast?_words {w cs : List Char} (h : IsLastRun w cs) :
    (words cs).getLast? = some w := by
  obtain ⟨before, after, rfl, hbefore, hafter⟩ := h.maximal
  rw [words_append_gap hafter]
  obtain rfl | ⟨init, c, rfl⟩ := before.eq_nil_or_concat'
  · rw [List.nil_append, words_run h.ne_nil h.all]
    rfl
  · have hc : isBlank c := hbefore c List.getLast?_concat
    rw [List.append_assoc, List.singleton_append, words_append_blank hc,
      words_run h.ne_nil h.all, List.getLast?_concat]

/-- What is not white space alone has a last run. -/
theorem exists_isLastRun {cs : List Char} (h : ¬ IsGap cs) : ∃ w, IsLastRun w cs := by
  let shown := cs.rdropWhile isBlank
  have hshown : shown ≠ [] := fun hnil => h (List.rdropWhile_eq_nil_iff.mp hnil)
  let w := shown.rtakeWhile (!isBlank ·)
  refine ⟨w, ?_, ?_, shown.rdropWhile (!isBlank ·), cs.rtakeWhile isBlank, ?_, ?_, ?_⟩
  · have hlast := List.rdropWhile_last_not isBlank cs hshown
    rw [Ne, List.rtakeWhile_eq_nil_iff]
    intro hblank
    exact hblank hshown (by simpa using hlast)
  · intro c hc
    simpa using List.mem_rtakeWhile_imp hc
  · rw [List.rdropWhile_append_rtakeWhile, List.rdropWhile_append_rtakeWhile]
  · intro c hc
    obtain ⟨hne, rfl⟩ := List.mem_getLast?_eq_getLast hc
    simpa using List.rdropWhile_last_not (!isBlank ·) shown hne
  · exact fun c hc => List.mem_rtakeWhile_imp hc

theorem words_eq_nil_iff {cs : List Char} : words cs = [] ↔ IsGap cs := by
  refine ⟨fun h => ?_, words_gap⟩
  by_contra hgap
  obtain ⟨w, hw⟩ := exists_isLastRun hgap
  have hlast := hw.getLast?_words
  rw [h] at hlast
  cases hlast

theorem getLast?_words_eq_some_iff {w cs : List Char} :
    (words cs).getLast? = some w ↔ IsLastRun w cs := by
  refine ⟨fun h => ?_, IsLastRun.getLast?_words⟩
  have hgap : ¬ IsGap cs := by
    intro hgap
    rw [words_gap hgap] at h
    cases h
  obtain ⟨w', hw'⟩ := exists_isLastRun hgap
  obtain rfl : w' = w := Option.some.inj (hw'.getLast?_words.symm.trans h)
  exact hw'

end PbesLab.Text

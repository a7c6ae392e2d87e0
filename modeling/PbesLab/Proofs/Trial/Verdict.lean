import PbesLab.Proofs.Text.Words
import PbesLab.Trial.Verdict

namespace PbesLab

open Text

/-- `bare` is the word without the full stops at its end. -/
structure WithoutStops (word bare : List Char) : Prop where
  stops : ∃ n, word = bare ++ List.replicate n '.'
  bare : bare.getLast? ≠ some '.'

/-- The answer of a whole text: without the full stops behind it, the last run is the word for
it. -/
def Says (cs : List Char) (answer : Bool) : Prop :=
  ∃ word, IsLastRun word cs ∧ WithoutStops word (boolText answer).toList

theorem trimRight_eq_rdropWhile (p : Char → Bool) (cs : List Char) :
    trimRight p cs = cs.rdropWhile p :=
  rfl

theorem withoutStops_iff {word bare : List Char} :
    WithoutStops word bare ↔ trimRight (· == '.') word = bare := by
  rw [trimRight_eq_rdropWhile]
  constructor
  · rintro ⟨⟨n, rfl⟩, hbare⟩
    induction n with
    | zero =>
      rw [List.replicate_zero, List.append_nil, List.rdropWhile_eq_self_iff]
      intro hne hstop
      rw [List.getLast?_eq_some_getLast hne] at hbare
      exact hbare (congrArg some (by simpa using hstop))
    | succ n ih =>
      rw [List.replicate_succ', ← List.append_assoc, List.rdropWhile_concat_pos _ _ _ (by simp), ih]
  · rintro rfl
    refine ⟨⟨(word.rtakeWhile (· == '.')).length, ?_⟩, ?_⟩
    · have hstops : word.rtakeWhile (· == '.') =
          List.replicate (word.rtakeWhile (· == '.')).length '.' :=
        List.eq_replicate_iff.mpr ⟨rfl, fun c hc => by simpa using List.mem_rtakeWhile_imp hc⟩
      rw [← hstops, List.rdropWhile_append_rtakeWhile]
    · intro hlast
      obtain ⟨hne, hstop⟩ := List.mem_getLast?_eq_getLast hlast
      have hnot := List.rdropWhile_last_not (· == '.') word hne
      rw [← hstop] at hnot
      exact hnot rfl

theorem answerOfWord?_eq_some_iff {word : List Char} {answer : Bool} :
    answerOfWord? word = some answer ↔ WithoutStops word (boolText answer).toList := by
  rw [withoutStops_iff]
  have hbare (text : String) : String.ofList (trimRight (· == '.') word) = text ↔
      trimRight (· == '.') word = text.toList :=
    ⟨fun h => by rw [← h, String.toList_ofList], fun h => by rw [h, String.ofList_toList]⟩
  unfold answerOfWord?
  simp only [hbare]
  by_cases htrue : trimRight (· == '.') word = "true".toList
  · rw [if_pos htrue, htrue]
    cases answer <;> simp [boolText]
  · rw [if_neg htrue]
    cases answer with
    | true => simpa [boolText] using htrue
    | false => simp [boolText]

/-- The lines of a text that are not blank, without the white space around them. -/
def shownLines (cs : List Char) : List (List Char) :=
  ((lines cs).map trim).filter (!·.isEmpty)

/-- Blank lines have no words, and trimming takes none away. -/
theorem words_eq_flatMap_shownLines (cs : List Char) :
    words cs = (shownLines cs).flatMap words := by
  have hshown (ls : List (List Char)) :
      ls.flatMap words = ((ls.map trim).filter (!·.isEmpty)).flatMap words := by
    induction ls with
    | nil => rfl
    | cons l ls ih =>
      rw [List.flatMap_cons, ih, List.map_cons, ← words_trim l]
      by_cases hl : trim l = []
      · simp [hl]
      · rw [List.filter_cons_of_pos (by simpa using hl), List.flatMap_cons]
  rw [words_eq_flatMap_lines, hshown, shownLines]

theorem words_ne_nil_of_mem_shownLines {cs line : List Char} (h : line ∈ shownLines cs) :
    words line ≠ [] := by
  obtain ⟨hline, hne⟩ := List.mem_filter.mp h
  obtain ⟨l, -, rfl⟩ := List.mem_map.mp hline
  intro hwords
  have hnil := trim_eq_nil (words_eq_nil_iff.mp hwords)
  rw [trim_eq_self (isTrimmed_trim l)] at hnil
  simp [hnil] at hne

/-- Reading by lines comes to reading the last word of all. -/
theorem readAnswer?_eq (output : String) :
    readAnswer? output = (words output.toList).getLast?.bind answerOfWord? := by
  have hread : readAnswer? output = (shownLines output.toList).getLast?.bind fun line =>
      (words line).getLast?.bind answerOfWord? := rfl
  rw [hread, words_eq_flatMap_shownLines]
  obtain hnil | ⟨init, line, hlast⟩ := (shownLines output.toList).eq_nil_or_concat'
  · rw [hnil]
    rfl
  · have hmem : line ∈ shownLines output.toList := hlast ▸ List.mem_concat_self
    rw [hlast, List.getLast?_concat, List.flatMap_append, List.flatMap_singleton,
      List.getLast?_append_of_ne_nil _ (words_ne_nil_of_mem_shownLines hmem)]
    rfl

/-- The answer that is read from an output is that of the whole text: the last run of characters
that are not white space tells it, without the full stops at its end, and no other run does. White
space behind the output makes no difference, and nor does a text before it that ends in white space,
unless the output is white space itself. -/
theorem readAnswer?_reads_whole_text (output : String) :
    (∀ answer, readAnswer? output = some answer ↔ Says output.toList answer) ∧
    (∀ after : String, IsGap after.toList → readAnswer? (output ++ after) = readAnswer? output) ∧
    ∀ before : String, ¬ IsGap output.toList → (∀ c ∈ before.toList.getLast?, isBlank c) →
      readAnswer? (before ++ output) = readAnswer? output := by
  refine ⟨fun answer => ?_, fun after hafter => ?_, fun before houtput hbefore => ?_⟩
  · rw [readAnswer?_eq, Option.bind_eq_some_iff]
    simp only [getLast?_words_eq_some_iff, answerOfWord?_eq_some_iff, Says]
  · rw [readAnswer?_eq, readAnswer?_eq, String.toList_append, words_append_gap hafter]
  · rw [readAnswer?_eq, readAnswer?_eq, String.toList_append]
    obtain hnil | ⟨init, c, hinit⟩ := before.toList.eq_nil_or_concat'
    · rw [hnil, List.nil_append]
    · have hc : isBlank c := hbefore c (by rw [hinit]; exact List.getLast?_concat)
      rw [hinit, List.append_assoc, List.singleton_append, words_append_blank hc,
        List.getLast?_append_of_ne_nil _ (words_eq_nil_iff.not.mpr houtput)]

/-- An answer behind a carriage return alone, before a line separator and line ends. -/
def scatteredOutput : String :=
  "The result is\r false... \u2028\n\n"

theorem scatteredOutput_read :
    IsGap " \u0085\r\n".toList ∧ ¬ IsGap scatteredOutput.toList ∧
      (∀ c ∈ "true\r\n".toList.getLast?, isBlank c) ∧ Says scatteredOutput.toList false ∧
        readAnswer? (scatteredOutput ++ " \u0085\r\n") = some false ∧
          readAnswer? ("true\r\n" ++ scatteredOutput) = some false := by
  have hgap : IsGap " \u0085\r\n".toList := List.all_eq_true.mp (by decide)
  have houtput : ¬ IsGap scatteredOutput.toList := fun h => absurd (h 'T' (by decide)) (by decide)
  have hbefore : ∀ c ∈ "true\r\n".toList.getLast?, isBlank c := by
    intro c hc
    have hlast : "true\r\n".toList.getLast? = some '\n' := by decide
    obtain rfl := Option.some.inj (hlast.symm.trans hc)
    decide
  have hread : readAnswer? scatteredOutput = some false := by decide +kernel
  obtain ⟨hreads, hafter, hbehind⟩ := readAnswer?_reads_whole_text scatteredOutput
  exact ⟨hgap, houtput, hbefore, (hreads false).mp hread, (hafter _ hgap).trans hread,
    (hbehind _ houtput hbefore).trans hread⟩

end PbesLab

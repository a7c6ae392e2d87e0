import PbesLab.Proofs.Grammar.Matching
import Mathlib.Data.List.TakeWhile

namespace PbesLab.Grammar

open Grammar.Tree (leaves)

/-- A run that passes a test, before a rest that does not go on with it. -/
theorem span_append {test : Char → Bool} {w rest : List Char} (hw : ∀ c ∈ w, test c)
    (hrest : ∀ c ∈ rest.head?, ¬ test c) :
    (w ++ rest).takeWhile test = w ∧ (w ++ rest).dropWhile test = rest := by
  have hsplit : rest.takeWhile test = [] ∧ rest.dropWhile test = rest := by
    cases rest with
    | nil => exact ⟨rfl, rfl⟩
    | cons c rest =>
      have hc := hrest c rfl
      exact ⟨List.takeWhile_cons_of_neg hc, List.dropWhile_cons_of_neg hc⟩
  constructor
  · rw [List.takeWhile_append_of_pos hw, hsplit.1, List.append_nil]
  · rw [List.dropWhile_append_of_pos hw, hsplit.2]

theorem head?_dropWhile {test : Char → Bool} {cs : List Char} :
    ∀ c ∈ (cs.dropWhile test).head?, ¬ test c := by
  intro c hc
  have h := List.head?_dropWhile_not test cs
  rw [Option.mem_def] at hc
  rw [hc] at h
  simpa using h

variable {ρ : Type} {g : Rules ρ} {call : Bool → ρ → List Char → Result ρ} {test : Char → Bool}
  {cs : List Char}

/-- Characters that pass a test, the first of which passes a test of its own. -/
structure IsRun (first test : Char → Bool) (w : List Char) : Prop where
  first : w.head?.any first
  all : ∀ c ∈ w, test c

instance (first test : Char → Bool) (w : List Char) : Decidable (IsRun first test w) :=
  decidable_of_iff (w.head?.any first ∧ w.all test)
    ⟨fun h => ⟨h.1, List.all_eq_true.mp h.2⟩, fun h => ⟨h.1, List.all_eq_true.mpr h.2⟩⟩

section Run

variable {first : Char → Bool}

/-- The longest run is read, if it starts as it should. -/
theorem matchPattern_run (hfirst : ∀ c, first c → test c) :
    matchPattern g call true (.oneOf first >> .many (.oneOf test)) cs =
      if cs.head?.any first then .matched (leaves (cs.takeWhile test)) (cs.dropWhile test)
      else .failed := by
  change matchPattern g call true (.seq (.oneOf first) (.many (.oneOf test))) cs = _
  rw [matchPattern_seq]
  cases cs with
  | nil => rfl
  | cons c cs =>
    by_cases hc : first c
    · have hone : matchPattern g call true (.oneOf first) (c :: cs) = .matched [.leaf c] cs := by
        simp [matchPattern, hc]
      have hmany : matchPattern g call true (.many (.oneOf test)) cs = _ :=
        matchPattern_many_oneOf test cs
      simp [hone, Result.andThen, gap, hmany, Result.prepend, Tree.leaves, hc, hfirst c hc]
    · simp [matchPattern, hc, Result.andThen]

theorem isRun_of_match (hfirst : ∀ c, first c → test c) {parts : List (Tree ρ)} {rest : List Char}
    (h : matchPattern g call true (.oneOf first >> .many (.oneOf test)) cs = .matched parts rest) :
    IsRun first test (cs.takeWhile test) ∧ parts = leaves (cs.takeWhile test) := by
  rw [matchPattern_run hfirst] at h
  split at h
  · next hstart =>
    obtain ⟨rfl, -⟩ := Result.matched.inj h
    refine ⟨⟨?_, fun c hc => List.mem_takeWhile_imp hc⟩, rfl⟩
    cases cs with
    | nil => exact hstart
    | cons c cs =>
      have hc : first c := by simpa using hstart
      simpa [hfirst c hc] using hc
  · cases h

theorem IsRun.matchPattern {w rest : List Char} (hfirst : ∀ c, first c → test c)
    (hw : IsRun first test w) (hrest : ∀ c ∈ rest.head?, ¬ test c) :
    matchPattern g call true (.oneOf first >> .many (.oneOf test)) (w ++ rest) =
      .matched (leaves w) rest := by
  obtain ⟨hword, hafter⟩ := span_append hw.all hrest
  rw [matchPattern_run hfirst, hword, hafter, if_pos]
  have hstart := hw.first
  cases w with
  | nil => simp at hstart
  | cons c w => simpa using hstart

end Run

theorem matchPattern_notAhead_oneOf (h : ∀ c ∈ cs.head?, ¬ test c) :
    matchPattern g call true (.notAhead (.oneOf test)) cs = .matched [] cs := by
  cases cs with
  | nil => rfl
  | cons c cs =>
    have hc := h c rfl
    simp [matchPattern, hc]

theorem matchPattern_notAhead_oneOf_failed (h : ¬ ∀ c ∈ cs.head?, ¬ test c) :
    matchPattern g call true (.notAhead (.oneOf test)) cs = .failed := by
  cases cs with
  | nil => simp at h
  | cons c cs =>
    have hc : test c := by simpa using h
    simp [matchPattern, hc]

/-- A word read by a pattern counts only if the run does not go on behind it. -/
theorem matchPattern_bounded {p : Pattern ρ} {w rest : List Char} (hw : ∀ c ∈ w, test c)
    (hp : matchPattern g call true p (w ++ rest) = .matched (leaves w) rest) :
    matchPattern g call true (p >> .notAhead (.oneOf test)) (w ++ rest) =
      if (w ++ rest).takeWhile test = w then
        .matched (leaves w) ((w ++ rest).dropWhile test)
      else .failed := by
  change matchPattern g call true (.seq p (.notAhead (.oneOf test))) (w ++ rest) = _
  rw [matchPattern_seq, hp]
  change (matchPattern g call true (.notAhead (.oneOf test)) rest).prepend _ = _
  by_cases hrest : ∀ c ∈ rest.head?, ¬ test c
  · obtain ⟨hword, hafter⟩ := span_append hw hrest
    rw [if_pos hword, hafter, matchPattern_notAhead_oneOf hrest]
    simp [Result.prepend, gap]
  · rw [if_neg, matchPattern_notAhead_oneOf_failed hrest]
    · rfl
    · intro hword
      have hsplit := List.takeWhile_append_dropWhile (p := test) (l := w ++ rest)
      rw [hword] at hsplit
      exact hrest (List.append_cancel_left hsplit ▸ head?_dropWhile)

theorem matchPattern_bounded_failed {p : Pattern ρ}
    (hp : matchPattern g call true p cs = .failed) :
    matchPattern g call true (p >> .notAhead (.oneOf test)) cs = .failed := by
  change matchPattern g call true (.seq p (.notAhead (.oneOf test))) cs = _
  rw [matchPattern_seq, hp]
  rfl

theorem matchPattern_word (call : Bool → ρ → List Char → Result ρ) (text : String)
    (cs : List Char) :
    matchPattern g call true (.word text) cs = .failed ∧ ¬ text.toList <+: cs ∨
      ∃ rest, cs = text.toList ++ rest ∧
        matchPattern g call true (.word text) cs = .matched (leaves text.toList) rest := by
  unfold Pattern.word
  cases h : dropText? text.toList cs with
  | none =>
    refine .inl ⟨by simp only [matchPattern, h], ?_⟩
    rintro ⟨rest, rfl⟩
    rw [dropText?_eq_some.mpr rfl] at h
    cases h
  | some rest => exact .inr ⟨rest, dropText?_eq_some.mp h, by simp only [matchPattern, h]⟩

theorem takeWhile_ne {w : List Char} (h : ¬ w <+: cs) : cs.takeWhile test ≠ w := by
  rintro rfl
  exact h (List.takeWhile_prefix test)

theorem matchPattern_wholeWord {text : String} (ht : ∀ c ∈ text.toList, test c) :
    matchPattern g call true (.word text >> .notAhead (.oneOf test)) cs =
      if cs.takeWhile test = text.toList then
        .matched (leaves text.toList) (cs.dropWhile test)
      else .failed := by
  obtain ⟨hfail, hpre⟩ | ⟨rest, rfl, hmatch⟩ := matchPattern_word (g := g) call text cs
  · rw [if_neg (takeWhile_ne hpre)]
    exact matchPattern_bounded_failed hfail
  · exact matchPattern_bounded ht hmatch

def isInLine (c : Char) : Bool :=
  c ≠ '\n' && c ≠ '\r'

theorem matchPattern_lineEnd_failed (h : ∀ c ∈ cs.head?, isInLine c) :
    matchPattern g call true .lineEnd cs = .failed := by
  unfold matchPattern
  split <;> first | contradiction | rfl | (simp [isInLine] at h)

theorem exists_matchPattern_lineEnd {c : Char} (h : ¬ isInLine c) :
    ∃ parts rest, matchPattern g call true .lineEnd (c :: cs) = .matched parts rest := by
  have hc : c = '\n' ∨ c = '\r' := by simpa [isInLine, imp_iff_not_or] using h
  obtain rfl | rfl := hc
  · exact ⟨_, _, rfl⟩
  · unfold matchPattern
    split <;> first | contradiction | exact ⟨_, _, rfl⟩ | skip
    next hno => exact absurd rfl (hno cs)

/-- Behind a negative lookahead for a line end, any character is one within the line. -/
theorem matchPattern_inLine :
    matchPattern g call true (.notAhead .lineEnd >> .oneOf fun _ => true) cs =
      matchPattern g call true (.oneOf isInLine) cs := by
  change matchPattern g call true (.seq (.notAhead .lineEnd) (.oneOf fun _ => true)) cs = _
  rw [matchPattern_seq]
  cases cs with
  | nil => rfl
  | cons c cs =>
    by_cases hc : isInLine c
    · have hend : matchPattern g call true .lineEnd (c :: cs) = .failed :=
        matchPattern_lineEnd_failed (by simpa using hc)
      have hahead : matchPattern g call true (.notAhead .lineEnd) (c :: cs) =
          .matched [] (c :: cs) := by
        simp only [matchPattern, hend]
      rw [hahead]
      simp [Result.andThen, gap, matchPattern, Result.prepend, hc]
    · have hend : ∃ parts rest, matchPattern g call true .lineEnd (c :: cs) = .matched parts rest :=
        exists_matchPattern_lineEnd hc
      obtain ⟨parts, rest, hend⟩ := hend
      have hahead : matchPattern g call true (.notAhead .lineEnd) (c :: cs) = .failed := by
        simp only [matchPattern, hend]
      rw [hahead]
      simp [Result.andThen, matchPattern, hc]

theorem matchPattern_many_congr {p q : Pattern ρ} {atomic : Bool}
    (h : ∀ cs, matchPattern g call atomic p cs = matchPattern g call atomic q cs) :
    matchPattern g call atomic (.many p) cs = matchPattern g call atomic (.many q) cs := by
  simp only [matchPattern, funext h]

theorem matchPattern_line :
    matchPattern g call true (.many (.notAhead .lineEnd >> .oneOf fun _ => true)) cs =
      .matched (leaves (cs.takeWhile isInLine)) (cs.dropWhile isInLine) := by
  rw [matchPattern_many_congr fun _ => matchPattern_inLine]
  exact matchPattern_many_oneOf isInLine cs

end PbesLab.Grammar

import PbesLab.Proofs.Disk.FileName

namespace PbesLab

/-- The end of a file name: without a slash, and long enough to keep the name from being dots. -/
def IsEnding (ending : String) : Prop :=
  '/' ∉ ending.toList ∧ 2 < ending.toList.length

instance (ending : String) : Decidable (IsEnding ending) :=
  inferInstanceAs (Decidable (_ ∧ _))

variable {ending other : String}

theorem IsEnding.toList_ne_nil (h : IsEnding ending) : ending.toList ≠ [] :=
  List.ne_nil_of_length_pos (Nat.lt_of_lt_of_le (by decide) (Nat.le_of_lt h.2))

/-- A name of three characters is no step to the same place or up. -/
theorem not_dots_of_length {name : String} (h : 2 < name.toList.length) :
    name ∉ ["", ".", ".."] := by
  intro hmem
  have hlong : ∀ dots ∈ ["", ".", ".."], ¬ 2 < dots.toList.length := by decide
  exact hlong name hmem h

theorem IsEnding.not_dots (h : IsEnding ending) (stem : String) :
    stem ++ ending ∉ ["", ".", ".."] := by
  refine not_dots_of_length ?_
  rw [String.toList_append, List.length_append]
  exact Nat.lt_add_left _ h.2

namespace Path

theorem isAbsolute_append (name : String) (h : IsEnding ending) :
    isAbsolute ⟨name ++ ending⟩ = isAbsolute ⟨name⟩ := by
  unfold isAbsolute
  rw [String.toList_append]
  cases hname : name.toList with
  | nil =>
    cases hending : ending.toList with
    | nil => exact absurd hending h.toList_ne_nil
    | cons c cs =>
      have hc : c ≠ '/' := fun hc => h.1 (by simp [hending, hc])
      simp [hc]
  | cons c cs => rfl

theorem join_append (dir : Path) (name : String) (h : IsEnding ending) :
    dir.join ⟨name ++ ending⟩ = ⟨(dir.join ⟨name⟩).text ++ ending⟩ := by
  unfold join
  rw [isAbsolute_append name h]
  split_ifs <;> simp [String.append_assoc]

theorem exists_pieces_append (text : String) :
    ∃ init stem, ∀ ending, IsEnding ending →
      pieces ⟨text ++ ending⟩ = init ++ [stem ++ ending] := by
  obtain ⟨init, last, h⟩ := Text.exists_pieces_append (· == '/') text.toList
  refine ⟨init.map String.ofList, String.ofList last, fun ending hending => ?_⟩
  have huncut : ∀ c ∈ ending.toList, (c == '/') = false :=
    fun c hc => beq_false_of_ne fun he => hending.1 (he ▸ hc)
  unfold pieces
  rw [String.toList_append, h _ huncut]
  simp [String.ofList_append]

theorem exists_fileName?_append (dir : Path) (name : String) :
    ∃ stem, ∀ ending, IsEnding ending →
      (dir.join ⟨name ++ ending⟩).fileName? = some (stem ++ ending) := by
  obtain ⟨init, stem, hpieces⟩ := exists_pieces_append (dir.join ⟨name⟩).text
  refine ⟨stem, fun ending hending => ?_⟩
  rw [join_append dir name hending, fileName?,
    splitName?_of_pieces (hpieces ending hending) (hending.not_dots stem)]
  rfl

theorem apart_of_endings (dir : Path) (name : String) (h : IsEnding ending) (h' : IsEnding other)
    (hne : ending ≠ other) : Apart (dir.join ⟨name ++ ending⟩) (dir.join ⟨name ++ other⟩) := by
  obtain ⟨stem, hname⟩ := exists_fileName?_append dir name
  exact apart_of_fileName? (hname ending h) (hname other h') fun he => hne (by simpa using he)

end Path

namespace Disk

variable {d : Disk} {k k' l : Location}

theorem eq_of_follow_last {piece : String} (h : d.follow l [piece] = .ok k)
    (hdots : 2 < piece.toList.length) : k = l ++ [piece] :=
  (Except.ok.inj (follow_name h (not_dots_of_length hdots))).symm

/-- Where a path leads in whose last piece only the ending is known. -/
theorem exists_follow_of_locate {text : String} {init : List String} {stem : String}
    (h : IsEnding ending) (hpieces : Path.pieces ⟨text ++ ending⟩ = init ++ [stem ++ ending])
    (hk : d.locate ⟨text ++ ending⟩ = .ok k) :
    ∃ l, d.follow (if Path.isAbsolute ⟨text⟩ then [] else d.current) init = .ok l ∧
      k = l ++ [stem ++ ending] := by
  have hpath := follow_of_locate hk
  rw [hpieces, Path.isAbsolute_append text h, follow_append] at hpath
  cases hway : d.follow (if Path.isAbsolute ⟨text⟩ then [] else d.current) init with
  | error e =>
    rw [hway] at hpath
    cases hpath
  | ok l =>
    rw [hway] at hpath
    refine ⟨l, rfl, eq_of_follow_last hpath ?_⟩
    rw [String.toList_append, List.length_append]
    exact Nat.lt_add_left _ h.2

theorem locate_ne {dir : Path} {name : String} (h : IsEnding ending) (h' : IsEnding other)
    (hne : ending ≠ other) (hk : d.locate (dir.join ⟨name ++ ending⟩) = .ok k)
    (hk' : d.locate (dir.join ⟨name ++ other⟩) = .ok k') : k ≠ k' := by
  rintro rfl
  exact (Path.apart_of_endings dir name h h' hne).places d k hk hk'

end Disk

end PbesLab

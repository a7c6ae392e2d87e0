import PbesLab.Text.Pieces
import Mathlib.Data.List.Basic

namespace PbesLab.Text

variable {cut : Char → Bool}

theorem pieces_of_uncut {cs : List Char} (h : ∀ c ∈ cs, cut c = false) : pieces cut cs = [cs] := by
  induction cs with
  | nil => rfl
  | cons c cs ih =>
    have hc := h c List.mem_cons_self
    have hcs := ih fun x hx => h x (List.mem_cons_of_mem c hx)
    simp [pieces, hc, hcs]

/-- What holds no cut goes to the last piece. -/
theorem exists_pieces_append (cut : Char → Bool) (cs : List Char) :
    ∃ init last, ∀ ds, (∀ c ∈ ds, cut c = false) →
      pieces cut (cs ++ ds) = init ++ [last ++ ds] := by
  induction cs with
  | nil => exact ⟨[], [], fun ds hds => pieces_of_uncut hds⟩
  | cons c cs ih =>
    obtain ⟨init, last, h⟩ := ih
    by_cases hc : cut c = true
    · exact ⟨[] :: init, last, fun ds hds => by simp [pieces, hc, h ds hds]⟩
    · cases init with
      | nil => exact ⟨[], c :: last, fun ds hds => by simp [pieces, hc, h ds hds]⟩
      | cons piece init =>
        exact ⟨(c :: piece) :: init, last, fun ds hds => by simp [pieces, hc, h ds hds]⟩

theorem exists_pieces_eq_cons (cut : Char → Bool) (cs : List Char) :
    ∃ piece rest, pieces cut cs = piece :: rest := by
  obtain ⟨init, last, h⟩ := exists_pieces_append cut cs
  have hcs := h [] (by simp)
  simp only [List.append_nil] at hcs
  rw [hcs]
  cases init with
  | nil => exact ⟨last, [], rfl⟩
  | cons piece init => exact ⟨piece, init ++ [last], rfl⟩

/-- A cut parts the pieces before it from those behind it. -/
theorem pieces_append_cut {c : Char} (hc : cut c) (xs ys : List Char) :
    pieces cut (xs ++ c :: ys) = pieces cut xs ++ pieces cut ys := by
  induction xs with
  | nil => simp [pieces, hc]
  | cons x xs ih =>
    obtain ⟨piece, rest, hxs⟩ := exists_pieces_eq_cons cut xs
    by_cases hx : cut x = true
    · simp [pieces, hx, ih]
    · simp [pieces, hx, ih, hxs]

theorem uncut_of_mem_pieces {cs piece : List Char} (h : piece ∈ pieces cut cs) :
    ∀ c ∈ piece, cut c = false := by
  induction cs generalizing piece with
  | nil =>
    obtain rfl := List.mem_singleton.mp h
    exact nofun
  | cons c cs ih =>
    by_cases hc : cut c = true
    · obtain rfl | hpiece : piece = [] ∨ piece ∈ pieces cut cs := by simpa [pieces, hc] using h
      · exact nofun
      · exact ih hpiece
    · obtain ⟨first, rest, hcs⟩ := exists_pieces_eq_cons cut cs
      obtain rfl | hpiece : piece = c :: first ∨ piece ∈ rest := by simpa [pieces, hc, hcs] using h
      · refine List.forall_mem_cons.mpr ⟨Bool.not_eq_true _ ▸ hc, ih ?_⟩
        rw [hcs]
        exact List.mem_cons_self
      · refine ih ?_
        rw [hcs]
        exact List.mem_cons_of_mem first hpiece

/-- What a text was cut at makes it whole again. -/
theorem intercalate_pieces (c : Char) (cs : List Char) :
    [c].intercalate (pieces (· == c) cs) = cs := by
  induction cs with
  | nil => rfl
  | cons x cs ih =>
    obtain ⟨first, rest, hcs⟩ := exists_pieces_eq_cons (· == c) cs
    rw [hcs] at ih
    by_cases hx : x = c
    · simp [pieces, hx, hcs, ih]
    · cases rest with
      | nil => simpa [pieces, hx, hcs] using ih
      | cons second rest => simpa [pieces, hx, hcs] using ih

theorem intercalate_concat (sep : List Char) {before : List (List Char)} (h : before ≠ [])
    (last : List Char) :
    sep.intercalate (before ++ [last]) = sep.intercalate before ++ sep ++ last := by
  induction before with
  | nil => exact absurd rfl h
  | cons first before ih =>
    cases before with
    | nil => simp
    | cons second before => simpa using ih (List.cons_ne_nil second before)

end PbesLab.Text

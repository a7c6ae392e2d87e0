import PbesLab.EqSystem.Grammar

namespace PbesLab.SystemRule

def isLineEnd (c : Char) : Bool :=
  c == '\n' || c == '\r'

def isBlank (c : Char) : Bool :=
  c == ' ' || c == '\t' || isLineEnd c

/-- Blanks, tabs, line ends and comments before the rest of a text. A comment reaches up to the next
line end or the end of the text. -/
inductive Layout : List Char → List Char → Prop
  | nil {rest} : Layout [] rest
  | blank {c gap rest} (hc : isBlank c) (more : Layout gap rest) : Layout (c :: gap) rest
  | comment {body gap rest} (hbody : ∀ c ∈ body, ¬ isLineEnd c)
      (hend : ∀ c ∈ (gap ++ rest).head?, isLineEnd c) (more : Layout gap rest) :
      Layout ('%' :: body ++ gap) rest

def skip (cs : List Char) : List Char :=
  (layout cs).2

def Flush (cs : List Char) : Prop :=
  ∀ c ∈ cs.head?, ¬ isBlank c ∧ c ≠ '%'

theorem layout_blank {c : Char} (hc : isBlank c) (cs : List Char) :
    layout (c :: cs) = (c :: (layout cs).1, (layout cs).2) := by
  have h : c = ' ' ∨ c = '\t' ∨ c = '\n' ∨ c = '\r' := by
    simpa [isBlank, isLineEnd, or_assoc] using hc
  rw [layout, if_pos h]

theorem layout_percent (cs : List Char) :
    layout ('%' :: cs) = ('%' :: (layout.comment cs).1, (layout.comment cs).2) := rfl

theorem layout_eq_nil {cs : List Char} (h : Flush cs) : layout cs = ([], cs) := by
  cases cs with
  | nil => rfl
  | cons c cs =>
    obtain ⟨hb, hp⟩ := h c rfl
    have hb' : ¬ (c = ' ' ∨ c = '\t' ∨ c = '\n' ∨ c = '\r') := by
      simpa [isBlank, isLineEnd, or_assoc] using hb
    rw [layout, if_neg hb', if_neg hp]

theorem comment_lineEnd {c : Char} (hc : isLineEnd c) (cs : List Char) :
    layout.comment (c :: cs) = layout (c :: cs) := by
  have h : c = '\n' ∨ c = '\r' := by simpa [isLineEnd] using hc
  rw [layout.comment, if_pos h, layout_blank (by simp [isBlank, hc])]

theorem comment_cons {c : Char} (hc : ¬ isLineEnd c) (cs : List Char) :
    layout.comment (c :: cs) = (c :: (layout.comment cs).1, (layout.comment cs).2) := by
  have h : ¬ (c = '\n' ∨ c = '\r') := by simpa [isLineEnd] using hc
  rw [layout.comment, if_neg h]

/-- A comment body, then the layout from the next line end on. -/
theorem comment_append {body cs : List Char} (hbody : ∀ c ∈ body, ¬ isLineEnd c)
    (hend : ∀ c ∈ cs.head?, isLineEnd c) :
    layout.comment (body ++ cs) = (body ++ (layout cs).1, (layout cs).2) := by
  induction body with
  | nil =>
    cases cs with
    | nil => rfl
    | cons c cs => rw [List.nil_append, comment_lineEnd (hend c rfl)]; rfl
  | cons c body ih =>
    rw [List.cons_append, comment_cons (hbody c (by simp)), ih fun d hd => hbody d (by simp [hd])]
    rfl

theorem exists_comment_body (cs : List Char) :
    ∃ body rest, cs = body ++ rest ∧ (∀ c ∈ body, ¬ isLineEnd c) ∧
      ∀ c ∈ rest.head?, isLineEnd c := by
  induction cs with
  | nil => exact ⟨[], [], rfl, by simp, by simp⟩
  | cons c cs ih =>
    by_cases hc : isLineEnd c
    · exact ⟨[], c :: cs, rfl, by simp, by simpa using hc⟩
    · obtain ⟨body, rest, rfl, hbody, hrest⟩ := ih
      exact ⟨c :: body, rest, rfl, by simpa [hc] using hbody, hrest⟩

/-- What is split off is layout, nothing is lost, and no layout follows. -/
theorem layout_spec (cs : List Char) :
    (layout cs).1 ++ (layout cs).2 = cs ∧ Layout (layout cs).1 (layout cs).2 ∧
      Flush (layout cs).2 := by
  match cs with
  | [] => exact ⟨rfl, .nil, by simp [Flush, layout]⟩
  | c :: cs =>
    by_cases hc : isBlank c
    · obtain ⟨happ, hlay, hflush⟩ := layout_spec cs
      rw [layout_blank hc]
      exact ⟨by simp [happ], .blank hc hlay, hflush⟩
    · by_cases hp : c = '%'
      · obtain ⟨body, rest, rfl, hbody, hend⟩ := exists_comment_body cs
        obtain ⟨happ, hlay, hflush⟩ := layout_spec rest
        rw [hp, layout_percent, comment_append hbody hend]
        refine ⟨by simp [happ], .comment hbody ?_ hlay, hflush⟩
        rw [happ]
        exact hend
      · have hflush : Flush (c :: cs) := by simp [Flush, hc, hp]
        rw [layout_eq_nil hflush]
        exact ⟨rfl, .nil, hflush⟩
termination_by cs.length

theorem layout_lossless (cs : List Char) : (layout cs).1 ++ (layout cs).2 = cs :=
  (layout_spec cs).1

theorem flush_skip (cs : List Char) : Flush (skip cs) :=
  (layout_spec cs).2.2

theorem skip_eq_self {cs : List Char} (h : Flush cs) : skip cs = cs :=
  congrArg Prod.snd (layout_eq_nil h)

@[simp] theorem skip_skip (cs : List Char) : skip (skip cs) = skip cs :=
  skip_eq_self (flush_skip cs)

theorem layout_append {gap rest : List Char} (h : Layout gap rest) (hrest : Flush rest) :
    layout (gap ++ rest) = (gap, rest) := by
  induction h with
  | nil => exact layout_eq_nil hrest
  | blank hc _ ih => rw [List.cons_append, layout_blank hc, ih hrest]
  | comment hbody hend _ ih =>
    rw [List.cons_append, List.cons_append, List.append_assoc, layout_percent,
      comment_append hbody hend, ih hrest]

theorem skip_append {gap rest : List Char} (h : Layout gap rest) (hrest : Flush rest) :
    skip (gap ++ rest) = rest :=
  congrArg Prod.snd (layout_append h hrest)

end PbesLab.SystemRule

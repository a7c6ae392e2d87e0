import PbesLab.Grammar.Meaning
import PbesLab.Proofs.Grammar.Matching

namespace PbesLab.Grammar.Tree

variable {ρ μ : Type} {ofNode? : ρ → List (Tree ρ) → List μ → Option μ}

theorem meaningsOf_nil : meaningsOf ofNode? [] = .ok [] := rfl

theorem meaningsOf_append (xs ys : List (Tree ρ)) :
    meaningsOf ofNode? (xs ++ ys) = do
      let ms ← meaningsOf ofNode? xs
      let ns ← meaningsOf ofNode? ys
      return ms ++ ns := by
  induction xs with
  | nil => cases h : meaningsOf ofNode? ys <;> exact h
  | cons x xs ih =>
    rw [List.cons_append, meaningsOf, ih, meaningsOf]
    cases meanings ofNode? x with
    | error r => rfl
    | ok first =>
      cases meaningsOf ofNode? xs with
      | error r => rfl
      | ok ms =>
        cases meaningsOf ofNode? ys with
        | error r => rfl
        | ok ns => exact congrArg Except.ok (List.append_assoc first ms ns).symm

theorem meaningsOf_append_ok {xs ys : List (Tree ρ)} {ms ns : List μ}
    (hx : meaningsOf ofNode? xs = .ok ms) (hy : meaningsOf ofNode? ys = .ok ns) :
    meaningsOf ofNode? (xs ++ ys) = .ok (ms ++ ns) := by
  rw [meaningsOf_append, hx, hy]
  rfl

@[simp] theorem meaningsOf_leaves (cs : List Char) : meaningsOf ofNode? (leaves cs) = .ok [] := by
  induction cs with
  | nil => rfl
  | cons c cs ih =>
    change meaningsOf ofNode? (.leaf c :: leaves cs) = _
    simp only [meaningsOf, meanings, ih]
    rfl

/-- Layout between two stretches means nothing. -/
theorem meaningsOf_gap_ok {xs ys : List (Tree ρ)} {ms ns : List μ} (gap : List Char)
    (hx : meaningsOf ofNode? xs = .ok ms) (hy : meaningsOf ofNode? ys = .ok ns) :
    meaningsOf ofNode? (xs ++ leaves gap ++ ys) = .ok (ms ++ ns) := by
  have hgap := meaningsOf_append_ok hx (meaningsOf_leaves gap)
  rw [List.append_nil] at hgap
  exact meaningsOf_append_ok hgap hy

theorem meaningsOf_singleton (t : Tree ρ) :
    meaningsOf ofNode? [t] = meanings ofNode? t := by
  rw [meaningsOf]
  cases meanings ofNode? t with
  | error r => rfl
  | ok ms => exact congrArg Except.ok (List.append_nil ms)

theorem meaningsOf_node (r : ρ) (parts : List (Tree ρ)) :
    meaningsOf ofNode? [.node r parts] = (meaningsOf ofNode? parts).bind fun ms =>
      match ofNode? r parts ms with
      | some m => .ok [m]
      | none => .error r := by
  simp only [meaningsOf, meanings]
  cases meaningsOf ofNode? parts with
  | error e => rfl
  | ok ms => cases h : ofNode? r parts ms <;> simp [bind, Except.bind, h, pure, Except.pure]

theorem meaningsOf_node_ok {r : ρ} {parts : List (Tree ρ)} {ms : List μ} {m : μ}
    (hparts : meaningsOf ofNode? parts = .ok ms) (hm : ofNode? r parts ms = some m) :
    meaningsOf ofNode? [.node r parts] = .ok [m] := by
  rw [meaningsOf_node, hparts]
  simp only [Except.bind, hm]

end PbesLab.Grammar.Tree

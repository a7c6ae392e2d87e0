import Mathlib.Data.List.Forall2

namespace PbesLab

variable {α β γ : Type}

section

variable [BEq α] [LawfulBEq α] [DecidableEq α] {entries : List (α × β)} {k l : α}

theorem lookup_filter_ne (h : k ≠ l) :
    (entries.filter (·.1 ≠ l)).lookup k = entries.lookup k := by
  induction entries with
  | nil => rfl
  | cons entry entries ih =>
    obtain ⟨m, e⟩ := entry
    by_cases hm : m = l
    · subst m
      simpa [List.lookup_cons, beq_false_of_ne h] using ih
    · simp only [List.filter_cons, hm, ne_eq, not_false_eq_true, decide_true, if_true,
        List.lookup_cons]
      rw [← ih]

theorem lookup_filter_self : (entries.filter (·.1 ≠ l)).lookup l = none := by
  rw [List.lookup_eq_none_iff]
  intro entry hentry
  have hne : entry.1 ≠ l := of_decide_eq_true (List.mem_filter.mp hentry).2
  simpa using hne.symm

end

/-- A name of a list of named entries is looked up at its one entry. -/
theorem lookup_named {name : α → String} {value : α → β} {xs : List α}
    (h : (xs.map name).Nodup) {x : String} {b : β} :
    (xs.map fun a => (name a, value a)).lookup x = some b ↔ ∃ a ∈ xs, name a = x ∧ value a = b := by
  induction xs with
  | nil => simp
  | cons a xs ih =>
    obtain ⟨ha, hxs⟩ := List.nodup_cons.mp h
    simp only [List.map_cons, List.lookup_cons, List.mem_cons, exists_eq_or_imp]
    by_cases hx : x = name a
    · -- the other entries have other names
      have hout : ¬ ∃ a' ∈ xs, name a' = x ∧ value a' = b := fun ⟨a', ha', hname, _⟩ =>
        ha (List.mem_map.mpr ⟨a', ha', hname.trans hx⟩)
      simp [hx, hx ▸ hout]
    · rw [beq_false_of_ne hx]
      simp [Ne.symm hx, ih hxs]

theorem exists_of_forall₂ {R : α → β → Prop} {xs : List α} {ys : List β}
    (h : List.Forall₂ R xs ys) {x : α} (hx : x ∈ xs) : ∃ y ∈ ys, R x y := by
  induction h with
  | nil => cases hx
  | cons hxy _ ih =>
    obtain rfl | hx := List.mem_cons.mp hx
    · exact ⟨_, List.mem_cons_self, hxy⟩
    · obtain ⟨y, hy, hR⟩ := ih hx
      exact ⟨y, List.mem_cons_of_mem _ hy, hR⟩

theorem map_eq_of_forall₂ {f : α → γ} {g : β → γ} {xs : List α} {ys : List β}
    (h : List.Forall₂ (fun x y => f x = g y) xs ys) : xs.map f = ys.map g := by
  rw [← List.forall₂_eq_eq_eq, List.forall₂_map_left_iff, List.forall₂_map_right_iff]
  exact h

theorem eq_map_of_forall₂ {g : β → α} {xs : List α} {ys : List β}
    (h : List.Forall₂ (fun x y => x = g y) xs ys) : xs = ys.map g := by
  rw [← List.forall₂_eq_eq_eq, List.forall₂_map_right_iff]
  exact h

theorem exists_forall₂ {R : α → β → Prop} {xs : List α} (h : ∀ x ∈ xs, ∃ y, R x y) :
    ∃ ys, List.Forall₂ R xs ys := by
  induction xs with
  | nil => exact ⟨[], .nil⟩
  | cons x xs ih =>
    obtain ⟨y, hy⟩ := h x List.mem_cons_self
    obtain ⟨ys, hys⟩ := ih fun x' hx' => h x' (List.mem_cons_of_mem _ hx')
    exact ⟨y :: ys, .cons hy hys⟩

theorem mapM_of_forall₂ {m : Type → Type} [Monad m] [LawfulMonad m] {f : α → m β} {xs : List α}
    {ys : List β} (h : List.Forall₂ (fun x y => f x = pure y) xs ys) : xs.mapM f = pure ys := by
  induction h with
  | nil => rfl
  | cons hxy _ ih => simp [hxy, ih]

theorem mapM_map_of_inverse {f : β → Option α} {g : α → β} {xs : List α}
    (h : ∀ x, f (g x) = some x) : (xs.map g).mapM f = some xs :=
  mapM_of_forall₂ (List.forall₂_map_left_iff.mpr (List.forall₂_same.mpr fun x _ => h x))

theorem append_subset_append {as bs cs ds : List α} (h : as ⊆ bs) (h' : cs ⊆ ds) :
    as ++ cs ⊆ bs ++ ds :=
  List.append_subset.mpr
    ⟨List.subset_append_of_subset_left ds h, List.subset_append_of_subset_right bs h'⟩

theorem countP_map_succ (ns : List Nat) (n : Nat) :
    (ns.map (· + 1)).countP (· < n + 1) = ns.countP (· < n) := by
  simp only [List.countP_map, Function.comp_def, Nat.add_lt_add_iff_right]

theorem length_flatMap_le {f : α → List β} {xs : List α} {k : Nat}
    (h : ∀ x ∈ xs, (f x).length ≤ k) : (xs.flatMap f).length ≤ k * xs.length := by
  induction xs with
  | nil => simp
  | cons x xs ih =>
    have hx := h x List.mem_cons_self
    have hxs := ih fun y hy => h y (List.mem_cons_of_mem _ hy)
    rw [List.flatMap_cons, List.length_append, List.length_cons, Nat.mul_succ]
    omega

end PbesLab

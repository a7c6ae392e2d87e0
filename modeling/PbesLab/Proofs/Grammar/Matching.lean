import PbesLab.Grammar.Matching

namespace PbesLab.Grammar

variable {ρ : Type} {g : Rules ρ}

namespace Tree

@[simp] theorem textOf_append (xs ys : List (Tree ρ)) :
    textOf (xs ++ ys) = textOf xs ++ textOf ys := by
  simp [textOf]

@[simp] theorem textOf_leaves (cs : List Char) : textOf (leaves cs : List (Tree ρ)) = cs := by
  induction cs with
  | nil => rfl
  | cons c cs ih => simpa [textOf, leaves, chars] using ih

@[simp] theorem textOf_node (r : ρ) (parts : List (Tree ρ)) :
    textOf [node r parts] = textOf parts := by
  simp [textOf, chars]

@[simp] theorem leaves_nil : (leaves [] : List (Tree ρ)) = [] := rfl

end Tree

namespace Result

theorem andThen_eq_matched {r : Result ρ} {k : List (Tree ρ) → List Char → Result ρ}
    {parts : List (Tree ρ)} {rest : List Char} :
    r.andThen k = matched parts rest ↔
      ∃ xs mid, r = matched xs mid ∧ k xs mid = matched parts rest := by
  cases r with
  | starved | failed => simp [andThen]
  | matched xs mid =>
    constructor
    · intro h
      exact ⟨xs, mid, rfl, h⟩
    · rintro ⟨_, _, ⟨rfl, rfl⟩, h⟩
      exact h

theorem prepend_eq_matched {before parts : List (Tree ρ)} {r : Result ρ} {rest : List Char} :
    r.prepend before = matched parts rest ↔
      ∃ xs, r = matched xs rest ∧ before ++ xs = parts := by
  cases r with
  | starved | failed => simp [prepend]
  | matched xs rest' =>
    simp only [prepend, matched.injEq]
    constructor
    · rintro ⟨rfl, rfl⟩
      exact ⟨xs, ⟨rfl, rfl⟩, rfl⟩
    · rintro ⟨ys, ⟨rfl, rfl⟩, rfl⟩
      exact ⟨rfl, rfl⟩

theorem prepend_eq_starved {before : List (Tree ρ)} {r : Result ρ} :
    r.prepend before = starved ↔ r = starved := by
  cases r <;> simp [prepend]

end Result

theorem dropText?_eq_some {t cs rest : List Char} :
    dropText? t cs = some rest ↔ cs = t ++ rest := by
  induction t generalizing cs with
  | nil => simp [dropText?]
  | cons a t ih =>
    cases cs with
    | nil => simp [dropText?]
    | cons c cs => by_cases h : a = c <;> simp [dropText?, h, ih, eq_comm]

namespace Pattern

def isTerminal : Pattern ρ → Bool
  | empty | finish | literal _ | oneOf _ | lineEnd => true
  | _ => false

/-- Every match reads a character, given the rules of which that is known. -/
def consumes (reads : ρ → Bool) : Pattern ρ → Bool
  | literal t => !t.isEmpty
  | oneOf _ | lineEnd => true
  | rule r => reads r
  | seq p q => p.consumes reads || q.consumes reads
  | choice p q => p.consumes reads && q.consumes reads
  | _ => false

end Pattern

/-- A terminal fails or reads the text as it stands. -/
theorem matchPattern_terminal_cases {p : Pattern ρ} (hp : p.isTerminal) (reads : ρ → Bool)
    (call : Bool → ρ → List Char → Result ρ) (atomic : Bool) (cs : List Char) :
    matchPattern g call atomic p cs = .failed ∨
      ∃ t rest, (p.consumes reads → t ≠ []) ∧ cs = t ++ rest ∧
        matchPattern g call atomic p cs = .matched (Tree.leaves t) rest := by
  cases p with
  | empty => exact .inr ⟨[], cs, by simp [Pattern.consumes], rfl, rfl⟩
  | finish =>
    simp only [matchPattern]
    split
    · exact .inr ⟨[], cs, by simp [Pattern.consumes], rfl, rfl⟩
    · exact .inl rfl
  | literal t =>
    simp only [matchPattern]
    split
    · next rest hd =>
      exact .inr ⟨t, rest, by simp [Pattern.consumes], dropText?_eq_some.mp hd, rfl⟩
    · exact .inl rfl
  | oneOf test =>
    cases cs with
    | nil => exact .inl rfl
    | cons c cs =>
      simp only [matchPattern]
      split
      · exact .inr ⟨[c], cs, by simp, rfl, rfl⟩
      · exact .inl rfl
  | lineEnd =>
    unfold matchPattern
    split <;> first | contradiction | skip
    · exact .inr ⟨['\n'], _, by simp, rfl, rfl⟩
    · exact .inr ⟨['\r', '\n'], _, by simp, rfl, rfl⟩
    · exact .inr ⟨['\r'], _, by simp, rfl, rfl⟩
    · exact .inl rfl
  | rule | seq | choice | opt | many | ahead | notAhead => cases hp

theorem exists_of_matchPattern_terminal {p : Pattern ρ} {call : Bool → ρ → List Char → Result ρ}
    {atomic : Bool} {cs rest : List Char} {parts : List (Tree ρ)}
    (h : matchPattern g call atomic p cs = .matched parts rest) (hp : p.isTerminal)
    (reads : ρ → Bool) :
    ∃ t, (p.consumes reads → t ≠ []) ∧ cs = t ++ rest ∧ parts = Tree.leaves t := by
  obtain hf | ⟨t, after, ht, hcs, hm⟩ := matchPattern_terminal_cases hp reads call atomic cs
  · cases hf.symm.trans h
  · obtain ⟨rfl, rfl⟩ := Result.matched.inj (hm.symm.trans h)
    exact ⟨t, ht, hcs, rfl⟩

theorem matchPattern_terminal_ne_starved {p : Pattern ρ} (hp : p.isTerminal)
    {call : Bool → ρ → List Char → Result ρ} {atomic : Bool} {cs : List Char} :
    matchPattern g call atomic p cs ≠ .starved := by
  obtain hf | ⟨t, after, -, -, hm⟩ :=
    matchPattern_terminal_cases (g := g) hp (fun _ => false) call atomic cs
  · simp [hf]
  · simp [hm]

section Parts

variable {call : Bool → ρ → List Char → Result ρ} {atomic : Bool} {p q : Pattern ρ}
  {cs rest : List Char} {parts : List (Tree ρ)}

theorem matchPattern_lineEnd_call (call' : Bool → ρ → List Char → Result ρ) :
    matchPattern g call' atomic .lineEnd cs = matchPattern g call atomic .lineEnd cs := by
  unfold matchPattern
  split <;> first | contradiction | rfl

theorem matchPattern_seq : matchPattern g call atomic (.seq p q) cs =
    (matchPattern g call atomic p cs).andThen fun xs mid =>
      (matchPattern g call atomic q (gap g atomic mid).2).prepend
        (xs ++ Tree.leaves (gap g atomic mid).1) := rfl

theorem matchPattern_seq_eq_matched :
    matchPattern g call atomic (.seq p q) cs = .matched parts rest ↔
      ∃ xs mid ys, matchPattern g call atomic p cs = .matched xs mid ∧
        matchPattern g call atomic q (gap g atomic mid).2 = .matched ys rest ∧
          parts = xs ++ Tree.leaves (gap g atomic mid).1 ++ ys := by
  rw [matchPattern_seq, Result.andThen_eq_matched]
  constructor
  · rintro ⟨xs, mid, hp, hk⟩
    obtain ⟨ys, hq, rfl⟩ := Result.prepend_eq_matched.mp hk
    exact ⟨xs, mid, ys, hp, hq, rfl⟩
  · rintro ⟨xs, mid, ys, hp, hq, rfl⟩
    exact ⟨xs, mid, hp, Result.prepend_eq_matched.mpr ⟨ys, hq, rfl⟩⟩

theorem matchPattern_many_eq_matched :
    matchPattern g call atomic (.many p) cs = .matched parts rest ↔
      matchPattern g call atomic p cs = .failed ∧ parts = [] ∧ rest = cs ∨
        ∃ xs mid ys, matchPattern g call atomic p cs = .matched xs mid ∧
          repeatStep (gap g atomic) (matchPattern g call atomic p) mid mid = .matched ys rest ∧
            parts = xs ++ ys := by
  simp only [matchPattern]
  cases h : matchPattern g call atomic p cs with
  | starved => simp [Result.andThen]
  | failed => simp [eq_comm]
  | matched xs mid =>
    constructor
    · intro hk
      obtain ⟨ys, hys, rfl⟩ := Result.prepend_eq_matched.mp hk
      exact .inr ⟨xs, mid, ys, rfl, hys, rfl⟩
    · rintro (⟨hfail, -⟩ | ⟨_, _, ys, ⟨rfl, rfl⟩, hys, rfl⟩)
      · cases hfail
      · exact Result.prepend_eq_matched.mpr ⟨ys, hys, rfl⟩

theorem repeatStep_cons {step : List Char → Result ρ} {a : Char} {allowance : List Char} :
    repeatStep (gap g atomic) step (a :: allowance) cs =
      match step (gap g atomic cs).2 with
      | .starved => .starved
      | .failed => .matched [] cs
      | .matched parts rest => (repeatStep (gap g atomic) step allowance rest).prepend
          (Tree.leaves (gap g atomic cs).1 ++ parts) := rfl

theorem repeatStep_cons_eq_matched {step : List Char → Result ρ} {a : Char}
    {allowance : List Char} :
    repeatStep (gap g atomic) step (a :: allowance) cs = .matched parts rest ↔
      step (gap g atomic cs).2 = .failed ∧ parts = [] ∧ rest = cs ∨
        ∃ xs mid ys, step (gap g atomic cs).2 = .matched xs mid ∧
          repeatStep (gap g atomic) step allowance mid = .matched ys rest ∧
            parts = Tree.leaves (gap g atomic cs).1 ++ xs ++ ys := by
  rw [repeatStep_cons]
  cases h : step (gap g atomic cs).2 with
  | starved => simp
  | failed => simp [eq_comm]
  | matched xs mid =>
    constructor
    · intro hk
      obtain ⟨ys, hys, rfl⟩ := Result.prepend_eq_matched.mp hk
      exact .inr ⟨xs, mid, ys, rfl, hys, rfl⟩
    · rintro (⟨hfail, -⟩ | ⟨_, _, ys, ⟨rfl, rfl⟩, hys, rfl⟩)
      · cases hfail
      · exact Result.prepend_eq_matched.mpr ⟨ys, hys, rfl⟩

/-- A repeated test on characters takes the longest run. -/
theorem repeatStep_oneOf {test : Char → Bool} {allowance : List Char}
    (h : cs.length ≤ allowance.length) :
    repeatStep (gap g true) (matchPattern g call true (.oneOf test)) allowance cs =
      .matched (Tree.leaves (cs.takeWhile test)) (cs.dropWhile test) := by
  induction allowance generalizing cs with
  | nil =>
    obtain rfl := List.length_eq_zero_iff.mp (Nat.le_zero.mp h)
    rfl
  | cons a allowance ih =>
    cases cs with
    | nil => rfl
    | cons c cs =>
      rw [repeatStep_cons]
      simp only [gap, if_true, matchPattern]
      by_cases hc : test c
      · have hcs := ih (Nat.le_of_succ_le_succ h)
        simp [hc, hcs, Result.prepend, Tree.leaves]
      · simp [hc, Tree.leaves]

theorem matchPattern_many_oneOf (test : Char → Bool) (cs : List Char) :
    matchPattern g call true (.many (.oneOf test)) cs =
      .matched (Tree.leaves (cs.takeWhile test)) (cs.dropWhile test) := by
  cases cs with
  | nil => rfl
  | cons c cs =>
    by_cases hc : test c
    · have hcs : repeatStep (gap g true) (matchPattern g call true (.oneOf test)) cs cs = _ :=
        repeatStep_oneOf (Nat.le_refl _)
      simp [matchPattern, hc, Result.andThen, hcs, Result.prepend, Tree.leaves]
    · simp [matchPattern, hc, Tree.leaves]

end Parts

section Lossless

variable (hg : ∀ cs, (g.layout cs).1 ++ (g.layout cs).2 = cs)
include hg

theorem gap_append (atomic : Bool) (cs : List Char) :
    (gap g atomic cs).1 ++ (gap g atomic cs).2 = cs := by
  cases atomic
  · exact hg cs
  · rfl

theorem repeatStep_lossless {step : List Char → Result ρ} {atomic : Bool}
    (hstep : ∀ cs parts rest, step cs = .matched parts rest → Tree.textOf parts ++ rest = cs)
    {allowance cs rest : List Char} {parts : List (Tree ρ)}
    (h : repeatStep (gap g atomic) step allowance cs = .matched parts rest) :
    Tree.textOf parts ++ rest = cs := by
  induction allowance generalizing cs parts with
  | nil =>
    obtain ⟨rfl, rfl⟩ := Result.matched.inj h
    rfl
  | cons a allowance ih =>
    obtain ⟨-, rfl, rfl⟩ | ⟨xs, mid, ys, hxs, hys, rfl⟩ := repeatStep_cons_eq_matched.mp h
    · rfl
    · calc
        _ = (gap g atomic cs).1 ++ (Tree.textOf xs ++ (Tree.textOf ys ++ rest)) := by simp
        _ = (gap g atomic cs).1 ++ (gap g atomic cs).2 := by rw [ih hys, hstep _ _ _ hxs]
        _ = cs := gap_append hg atomic cs

theorem matchPattern_lossless {call : Bool → ρ → List Char → Result ρ}
    (hcall : ∀ a r cs parts rest, call a r cs = .matched parts rest →
      Tree.textOf parts ++ rest = cs)
    {atomic : Bool} {p : Pattern ρ} {cs rest : List Char} {parts : List (Tree ρ)}
    (h : matchPattern g call atomic p cs = .matched parts rest) :
    Tree.textOf parts ++ rest = cs := by
  induction p generalizing cs parts rest with
  | empty | finish | literal | oneOf | lineEnd =>
    obtain ⟨t, -, rfl, rfl⟩ := exists_of_matchPattern_terminal h rfl fun _ => false
    rw [Tree.textOf_leaves]
  | rule r => exact hcall _ _ _ _ _ h
  | seq a b iha ihb =>
    obtain ⟨xs, mid, ys, hxs, hys, rfl⟩ := matchPattern_seq_eq_matched.mp h
    calc
      _ = Tree.textOf xs ++ ((gap g atomic mid).1 ++ (Tree.textOf ys ++ rest)) := by simp
      _ = Tree.textOf xs ++ mid := by rw [ihb hys, gap_append hg atomic mid]
      _ = cs := iha hxs
  | choice a b iha ihb =>
    simp only [matchPattern] at h
    split at h
    · exact ihb h
    · exact iha h
  | opt a ih =>
    simp only [matchPattern] at h
    split at h
    · obtain ⟨rfl, rfl⟩ := Result.matched.inj h
      rfl
    · exact ih h
  | many a ih =>
    obtain ⟨-, rfl, rfl⟩ | ⟨xs, mid, ys, hxs, hys, rfl⟩ := matchPattern_many_eq_matched.mp h
    · rfl
    · rw [Tree.textOf_append, List.append_assoc,
        repeatStep_lossless hg (fun _ _ _ => ih) hys, ih hxs]
  | ahead a ih =>
    obtain ⟨xs, mid, hxs, hk⟩ := Result.andThen_eq_matched.mp h
    obtain ⟨rfl, rfl⟩ := Result.matched.inj hk
    rfl
  | notAhead a ih =>
    simp only [matchPattern] at h
    split at h
    · cases h
    · obtain ⟨rfl, rfl⟩ := Result.matched.inj h
      rfl
    · cases h

/-- The trees of a match hold exactly the characters that were read. -/
theorem matchRule_lossless {depth : Nat} {atomic : Bool} {r : ρ} {cs rest : List Char}
    {parts : List (Tree ρ)} (h : matchRule g depth atomic r cs = .matched parts rest) :
    Tree.textOf parts ++ rest = cs := by
  induction depth generalizing atomic r cs rest parts with
  | zero => cases h
  | succ depth ih =>
    obtain ⟨xs, mid, hxs, hk⟩ := Result.andThen_eq_matched.mp h
    obtain ⟨rfl, rfl⟩ := Result.matched.inj hk
    have htext := matchPattern_lossless hg (fun _ _ _ _ _ => ih) hxs
    cases atomic <;> simpa using htext

end Lossless

/-- A rule leaves one node in an open context. -/
theorem exists_node_of_matchRule {depth : Nat} {r : ρ} {cs rest : List Char}
    {parts : List (Tree ρ)} (h : matchRule g depth false r cs = .matched parts rest) :
    ∃ xs, parts = [.node r xs] := by
  cases depth with
  | zero => cases h
  | succ depth =>
    obtain ⟨xs, mid, -, hk⟩ := Result.andThen_eq_matched.mp h
    exact ⟨xs, (Result.matched.inj hk).1.symm⟩

end PbesLab.Grammar

import PbesLab.Sampling.Draw
import Mathlib.Data.List.Forall2

namespace PbesLab.Sampling

/-- The result has a property for every stream. -/
def Ensures {α : Type} (r : Rand α) (P : α → Prop) : Prop :=
  ∀ draws, P (r draws).1

variable {α β : Type} {P : α → Prop} {Q : β → Prop}

theorem ensures_pure {a : α} (h : P a) : Ensures (pure a) P :=
  fun _ => h

theorem Ensures.bind {r : Rand α} {f : α → Rand β} (hr : Ensures r P)
    (hf : ∀ a, P a → Ensures (f a) Q) : Ensures (r >>= f) Q :=
  fun draws => hf _ (hr draws) (r draws).2

theorem Ensures.mono {P' : α → Prop} {r : Rand α} (hr : Ensures r P) (h : ∀ a, P a → P' a) :
    Ensures r P' :=
  fun draws => h _ (hr draws)

theorem Ensures.and {P' : α → Prop} {r : Rand α} (hr : Ensures r P) (hr' : Ensures r P') :
    Ensures r fun a => P a ∧ P' a :=
  fun draws => ⟨hr draws, hr' draws⟩

theorem ensures_any (r : Rand α) : Ensures r fun _ => True :=
  fun _ => trivial

/-- What goes on after a choice may be exchanged on the results that are possible. -/
theorem Ensures.bind_congr {r : Rand α} {f g : α → Rand β} (hr : Ensures r P)
    (h : ∀ a, P a → f a = g a) : r >>= f = r >>= g := by
  funext draws
  exact congrFun (h _ (hr draws)) (r draws).2

theorem ensures_mapM {f : α → Rand β} {R : α → β → Prop} {xs : List α}
    (h : ∀ x ∈ xs, Ensures (f x) (R x)) : Ensures (xs.mapM f) (List.Forall₂ R xs) := by
  induction xs with
  | nil => exact ensures_pure .nil
  | cons x xs ih =>
    rw [List.mapM_cons]
    refine (h x List.mem_cons_self).bind fun y hy => ?_
    refine (ih fun z hz => h z (List.mem_cons_of_mem _ hz)).bind fun ys hys => ?_
    exact ensures_pure (.cons hy hys)

/-- A fold over consecutive numbers, with an invariant for each. -/
theorem ensures_foldlM {f : α → Nat → Rand α} {I : Nat → α → Prop}
    (h : ∀ j a, I j a → Ensures (f a j) (I (j + 1))) (first count : Nat) {a : α} (ha : I first a) :
    Ensures ((List.range' first count).foldlM f a) (I (first + count)) := by
  induction count generalizing first a with
  | zero => exact ensures_pure ha
  | succ count ih =>
    rw [List.range'_succ, List.foldlM_cons]
    refine (h first a ha).bind fun b hb => ?_
    rw [Nat.add_comm count, ← Nat.add_assoc]
    exact ih (first + 1) hb

theorem ensures_next (w : Width) : Ensures w.next (· < w.size) := by
  intro draws
  cases w with
  | bits32 => exact (draws.word draws.used).toNat_lt
  | bits64 =>
    have hlow := (draws.word draws.used).toNat_lt
    have hhigh := (draws.word (draws.used + 1)).toNat_lt
    change (draws.word draws.used).toNat + (draws.word (draws.used + 1)).toNat <<< 32 < 1 <<< 64
    omega

theorem ensures_below (w : Width) {n : Nat} (hn : 0 < n) (tries : Nat) :
    Ensures (w.below n tries) (· < n) := by
  induction tries with
  | zero => exact ensures_pure hn
  | succ tries ih =>
    refine (ensures_next w).bind fun x hx => ?_
    dsimp only
    split
    · exact ensures_pure (Nat.div_lt_of_lt_mul (Nat.mul_lt_mul_of_pos_right hx hn))
    · exact ih

theorem ensures_below32 {n : Nat} (hn : 0 < n) : Ensures (below32 n) (· < n) :=
  ensures_below .bits32 hn maxTries

theorem ensures_below64 {n : Nat} (hn : 0 < n) : Ensures (below64 n) (· < n) :=
  ensures_below .bits64 hn maxTries

theorem ensures_choose? (xs : List α) :
    Ensures (choose? xs) fun o => (o = none ↔ xs = []) ∧ ∀ x ∈ o, x ∈ xs := by
  unfold choose?
  by_cases hxs : xs = []
  · simp only [hxs, List.isEmpty_nil, if_true]
    exact ensures_pure (by simp)
  · rw [if_neg (by simpa using hxs)]
    refine (ensures_below32 (List.length_pos_iff.mpr hxs)).bind fun i hi => ensures_pure ?_
    simp [hxs, List.getElem?_eq_getElem hi]

theorem swapIfInBounds_perm (xs : Array α) (i j : Nat) :
    (xs.swapIfInBounds i j).toList.Perm xs.toList := by
  unfold Array.swapIfInBounds
  split
  · split
    · exact (Array.swap_perm _ _).toList
    · exact .refl _
  · exact .refl _

theorem ensures_shuffleFirst (n : Nat) (xs : Array α) :
    Ensures (shuffleFirst n xs) (·.toList.Perm xs.toList) := by
  induction n generalizing xs with
  | zero => exact ensures_pure (.refl _)
  | succ i ih =>
    unfold shuffleFirst
    split
    · exact ensures_pure (.refl _)
    · refine (ensures_any (below32 (i + 1))).bind fun j _ => ?_
      exact (ih _).mono fun ys hys => hys.trans (swapIfInBounds_perm xs i j)

theorem ensures_shuffle (xs : List α) : Ensures (shuffle xs) (·.Perm xs) := by
  refine (ensures_shuffleFirst xs.length xs.toArray).bind fun ys hys => ensures_pure ?_
  simpa using hys

/-- So many different numbers, all below a bound. -/
def IsSample (bound count : Nat) (chosen : List Nat) : Prop :=
  chosen.length = count ∧ chosen.Nodup ∧ ∀ i ∈ chosen, i < bound

/-- The next number `t` is at most `j`; where it is taken, `j` itself is free. -/
theorem IsSample.addSample {j count t : Nat} {chosen : List Nat} (h : IsSample j count chosen)
    (ht : t < j + 1) : IsSample (j + 1) (count + 1) (addSample j t chosen) := by
  obtain ⟨hlen, hnodup, hbound⟩ := h
  have hj : j ∉ chosen := fun hm => absurd (hbound j hm) (Nat.lt_irrefl j)
  have hperm : (Sampling.addSample j t chosen).Perm
      ((if t ∈ chosen then j else t) :: chosen) := by
    unfold Sampling.addSample
    cases hq : chosen.idxOf? t with
    | none =>
      rw [if_neg (List.idxOf?_eq_none_iff.mp hq)]
      exact List.perm_append_singleton t chosen
    | some q =>
      obtain ⟨hlt, hget, -⟩ := List.idxOf?_eq_some_iff.mp hq
      rw [if_pos (hget ▸ List.getElem_mem hlt)]
      exact List.perm_insertIdx j chosen (Nat.le_of_lt hlt)
  have hfresh : (if t ∈ chosen then j else t) ∉ chosen := by
    split
    · exact hj
    · assumption
  refine ⟨?_, hperm.nodup_iff.mpr (List.nodup_cons.mpr ⟨hfresh, hnodup⟩), ?_⟩
  · rw [hperm.length_eq, List.length_cons, hlen]
  · intro i hi
    obtain rfl | hi := List.mem_cons.mp (hperm.mem_iff.mp hi)
    · split <;> omega
    · exact Nat.lt_succ_of_lt (hbound i hi)

theorem ensures_sample {n count : Nat} (h : count ≤ n) :
    Ensures (sample n count) (IsSample n count) := by
  let I (j : Nat) (chosen : List Nat) : Prop :=
    n - count ≤ j ∧ IsSample j (j - (n - count)) chosen
  have hstep (j : Nat) (chosen : List Nat) (hI : I j chosen) :
      Ensures (do return addSample j (← below32 (j + 1)) chosen) (I (j + 1)) := by
    obtain ⟨hj, hchosen⟩ := hI
    refine (ensures_below32 (Nat.succ_pos j)).bind fun t ht => ensures_pure ⟨by omega, ?_⟩
    rw [Nat.succ_sub hj]
    exact hchosen.addSample ht
  have hempty : I (n - count) [] := by
    refine ⟨Nat.le_refl _, ?_⟩
    rw [Nat.sub_self]
    exact ⟨rfl, List.nodup_nil, by simp⟩
  have hall := ensures_foldlM hstep (n - count) count hempty
  rw [Nat.sub_add_cancel h] at hall
  unfold sample
  rw [← List.range'_eq_map_range]
  refine hall.mono fun chosen hchosen => ?_
  have hcount : n - (n - count) = count := by omega
  rw [← hcount]
  exact hchosen.2

end PbesLab.Sampling

import PbesLab.Proofs.EqSystem.Check
import PbesLab.Proofs.Lists
import PbesLab.Proofs.Shrink.Rewriting
import PbesLab.Proofs.Shrink.Run

namespace PbesLab

namespace Formula

variable {sigs sigs' : Signatures} {scope : Scope} {f t u : Formula}

theorem check_of_mem_parts (hu : u ∈ f.parts) (h : f.check sigs scope = .ok ()) :
    u.check sigs scope = .ok () := by
  cases f with
  | const b | val d | inst i => simp [parts] at hu
  | neg f =>
    obtain rfl : u = f := by simpa [parts] using hu
    exact h
  | bin op l r =>
    obtain ⟨hl, hr⟩ := check_bin_eq_ok.mp h
    obtain rfl | rfl : u = l ∨ u = r := by simpa [parts] using hu
    · exact hl
    · exact hr
  | quant q v f =>
    obtain ⟨hv, rfl⟩ : v.name ∉ f.freeVars ∧ u = f := by simpa [parts] using hu
    rwa [check_quant_of_not_free hv] at h

theorem check_of_mem_reductions (hu : u ∈ f.reductions) (h : f.check sigs scope = .ok ()) :
    u.check sigs scope = .ok () := by
  have hm : u = const true ∨ u = const false ∨ u ∈ f.parts := by
    have := (List.mem_filter.mp hu).1
    simpa using this
  obtain rfl | rfl | hm := hm
  · rfl
  · rfl
  · exact check_of_mem_parts hm h

/-- What fits in the scope of the hole may fill it. -/
theorem check_fill {C : Context}
    (hu : ∀ scope, t.check sigs scope = .ok () → u.check sigs scope = .ok ())
    (h : (C.fill t).check sigs scope = .ok ()) : (C.fill u).check sigs scope = .ok () := by
  induction C generalizing scope with
  | hole => exact hu scope h
  | neg C ih | quant q v C ih => exact ih h
  | left op C r ih =>
    obtain ⟨hl, hr⟩ := check_bin_eq_ok.mp h
    exact check_bin_eq_ok.mpr ⟨ih hl, hr⟩
  | right op l C ih =>
    obtain ⟨hl, hr⟩ := check_bin_eq_ok.mp h
    exact check_bin_eq_ok.mpr ⟨hl, ih hr⟩

/-- Without its instances a name needs no signature. -/
theorem check_substitute_const {name : String} {value : Bool}
    (hs : ∀ x, x ≠ name → sigs'.lookup x = sigs.lookup x)
    (h : f.check sigs scope = .ok ()) :
    (substitute name (const value) f).check sigs' scope = .ok () := by
  induction f generalizing scope with
  | const b => rfl
  | val d => exact h
  | inst i =>
    by_cases hi : i.name = name
    · simp [substitute, hi, check]
    · simp only [substitute, if_neg hi]
      rw [← h]
      simp only [check, Instance.check, hs i.name hi]
  | neg f ih | quant q v f ih => exact ih h
  | bin op l r ihl ihr =>
    obtain ⟨hl, hr⟩ := check_bin_eq_ok.mp h
    exact check_bin_eq_ok.mpr ⟨ihl hl, ihr hr⟩

end Formula

namespace EqSystem

variable {s q : EqSystem}

theorem signatures_remove (name : String) (value : Bool) :
    (s.remove name value).signatures = s.signatures.filter (·.1 ≠ name) := by
  simp only [remove, signatures, List.map_map, List.filter_map]
  rfl

theorem lookup_signatures_remove {name x : String} {value : Bool} (hx : x ≠ name) :
    (s.remove name value).signatures.lookup x = s.signatures.lookup x := by
  rw [signatures_remove, lookup_filter_ne hx]

theorem check_remove {name : String} {value : Bool} (hinit : name ≠ s.init.name)
    (h : s.check = .ok ()) : (s.remove name value).check = .ok () := by
  obtain ⟨hn, he, hi⟩ := check_eq_ok.mp h
  refine check_eq_ok.mpr ⟨?_, ?_, ?_⟩
  · simp only [remove, List.map_map]
    exact hn.sublist (List.filter_sublist.map Equation.name)
  · intro e' he'
    simp only [remove, List.mem_map, List.mem_filter] at he'
    obtain ⟨e, ⟨hmem, -⟩, rfl⟩ := he'
    obtain ⟨hp, hrhs⟩ := Equation.check_eq_ok.mp (he e hmem)
    refine Equation.check_eq_ok.mpr ⟨hp, ?_⟩
    exact Formula.check_substitute_const (fun x hx => lookup_signatures_remove hx) hrhs
  · have hlookup : (s.remove name value).signatures.lookup s.init.name =
        s.signatures.lookup s.init.name := lookup_signatures_remove hinit.symm
    rw [← hi]
    exact Instance.check_eq_of_lookup hlookup

/-- A changed right-hand side is checked as it stands; all else is as before. -/
theorem check_with_rhs {before after : List Equation} {e : Equation} {g : Formula} {i : Instance}
    (h : EqSystem.check ⟨before ++ e :: after, i⟩ = .ok ())
    (hg : ∀ sigs, e.rhs.check sigs e.params = .ok () → g.check sigs e.params = .ok ()) :
    EqSystem.check ⟨before ++ { e with rhs := g } :: after, i⟩ = .ok () := by
  obtain ⟨hn, he, hi⟩ := check_eq_ok.mp h
  have hs := signatures_with_rhs before after e g i
  refine check_eq_ok.mpr ⟨?_, ?_, ?_⟩
  · simpa using hn
  · rw [hs]
    intro e' he'
    obtain hm | rfl : e' ∈ before ++ after ∨ e' = { e with rhs := g } := by
      simp only [List.mem_append, List.mem_cons] at he' ⊢
      tauto
    · apply he
      simp only [List.mem_append, List.mem_cons] at hm ⊢
      tauto
    · obtain ⟨hp, hrhs⟩ := Equation.check_eq_ok.mp (he e (by simp))
      exact Equation.check_eq_ok.mpr ⟨hp, hg _ hrhs⟩
  · rw [hs]
    exact hi

theorem check_of_mem_removals (hq : q ∈ s.removals) (h : s.check = .ok ()) :
    q.check = .ok () := by
  simp only [removals, List.mem_flatMap, List.mem_filter, List.mem_cons, List.not_mem_nil,
    or_false, decide_eq_true_eq] at hq
  obtain ⟨e, ⟨-, hne⟩, rfl | rfl⟩ := hq
  · exact check_remove hne h
  · exact check_remove hne h

theorem check_of_mem_reducts (hq : q ∈ s.reducts) (h : s.check = .ok ()) :
    q.check = .ok () := by
  obtain ⟨C, hu, he⟩ := mem_reducts_iff_rewrites.mp hq
  refine check_with_rhs h fun sigs hrhs => ?_
  rw [he] at hrhs
  exact Formula.check_fill (fun _ => Formula.check_of_mem_reductions hu) hrhs

/-- Every single step keeps a well-formed system well-formed. -/
theorem check_of_mem_reductions (hq : q ∈ s.reductions) (h : s.check = .ok ()) :
    q.check = .ok () := by
  obtain hq | hq := List.mem_append.mp hq
  · exact check_of_mem_removals hq h
  · exact check_of_mem_reducts hq h

end EqSystem

namespace Search

variable {σ ε : Type} {s : EqSystem}

theorem check_currentAfter {calls : List (Call ε)} (h : s.check = .ok ())
    (hcalls : Asked s calls) : (currentAfter s calls).check = .ok () := by
  induction calls generalizing s with
  | nil => exact h
  | cons c calls ih =>
    apply ih _ hcalls.2
    unfold Call.next
    split
    · exact (mem_lighter.mp hcalls.1).2.1
    · exact h

theorem lighter_of_check (h : s.check = .ok ()) :
    lighter s = s.reductions.filter fun q => q.weight < s.weight := by
  rw [lighter_eq_filter]
  apply List.filter_congr
  intro q hq
  simp [EqSystem.check_of_mem_reductions hq h]

end Search

/-- All steps from a well-formed system are well-formed, and at any moment of any search from it a
sweep tests every lighter step: the check leaves none out. -/
theorem check_reductions_and_sweeps {s : EqSystem} (h : s.check = .ok ()) :
    (∀ q ∈ s.reductions, q.check = .ok ()) ∧
      ∀ (σ ε : Type) (p : Probe σ ε) (name : String) (st : σ) (before after : List (Call ε)),
        Search.calls p (Search.start name s) st = before ++ after →
          let current := Search.currentAfter s before
          (∀ q ∈ current.reductions, q.check = .ok ()) ∧
            Search.lighter current =
              current.reductions.filter fun q => q.weight < current.weight := by
  refine ⟨fun q hq => EqSystem.check_of_mem_reductions hq h, ?_⟩
  intro σ ε p name st before after hcalls current
  have hasked := (Search.run_calls p (Search.start name s) st).asked
  rw [hcalls, Search.asked_append] at hasked
  have hcurrent : current.check = .ok () := Search.check_currentAfter h hasked.1
  exact ⟨fun q hq => EqSystem.check_of_mem_reductions hq hcurrent,
    Search.lighter_of_check hcurrent⟩

/-- Quantifiers that hide a parameter of another sort:
`nu X(b: Bool) = (forall b: Nat. val(true)) || (exists b: Nat. X((b == 1)))`. -/
def hidingSystem : EqSystem where
  equations := [⟨.nu, "X", [⟨"b", .bool⟩], .bin .or (.quant .all ⟨"b", .nat⟩ (.val (.bool true)))
    (.quant .ex ⟨"b", .nat⟩ (.inst ⟨"X", [.binary .equal (.var "b") (.nat 1)]⟩))⟩]
  init := ⟨"X", [.bool false]⟩

theorem hidingSystem_reductions : hidingSystem.check = .ok () ∧
    ∀ q ∈ hidingSystem.reductions, q.check = .ok () :=
  have h : hidingSystem.check = .ok () := by decide
  ⟨h, (check_reductions_and_sweeps h).1⟩

end PbesLab

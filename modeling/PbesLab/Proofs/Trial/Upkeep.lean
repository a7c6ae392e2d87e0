import PbesLab.Proofs.Disk.Output
import PbesLab.Proofs.Trial.Action

namespace PbesLab

variable {τ : Type}

theorem Path.same_join_iff {dir : Path} {x y : String} (hx : IsPlainName x) (hy : IsPlainName y) :
    (dir.join ⟨x⟩).same (dir.join ⟨y⟩) = true ↔ x = y := by
  constructor
  · intro hsame
    by_contra hne
    have hapart := (apart_of_fileName? (fileName?_join dir hx) (fileName?_join dir hy) hne).same
    rw [hsame] at hapart
    cases hapart
  · rintro rfl
    exact decide_eq_true rfl

theorem Disk.ChangedIn.find_eq_ok_iff {P : Location → Prop} {d d' : Disk} {p : Path} {e : Entry}
    (h : ChangedIn P d d') (hp : ∀ k, d.locate p = .ok k → ¬ P k) :
    d'.find p = .ok e ↔ d.find p = .ok e := by
  rw [find_eq_ok, find_eq_ok]
  refine exists_congr fun k => ?_
  rw [h.locate_eq_ok]
  exact and_congr_right fun hk => by rw [h.elsewhere k (hp k hk)]

/-- The registry lists each of the names once, as a path in the directory, and nothing else. -/
structure Registry.Awaits (r : Registry) (dir : Path) (names : List String) : Prop where
  dir_eq : r.dir = dir
  plain : ∀ name ∈ names, IsPlainName name
  once : r.files.Pairwise fun p q => p.same q = false
  mem_iff (p : Path) : p ∈ r.files ↔ ∃ name ∈ names, p = dir.join ⟨name⟩

namespace Registry

variable {r : Registry} {dir : Path} {names : List String} {name : String}

theorem awaits_nothing (h : r.dir = dir) (hfiles : r.files = []) : r.Awaits dir [] := by
  refine ⟨h, nofun, ?_, fun p => ?_⟩
  · rw [hfiles]
    exact .nil
  · simp [hfiles]

theorem Awaits.pathOf (h : r.Awaits dir names) (name : String) :
    r.pathOf name = dir.join ⟨name⟩ := by
  rw [Registry.pathOf, h.dir_eq]

/-- A path is registered already if and only if its name is among those that wait. -/
theorem Awaits.any_same (h : r.Awaits dir names) (hname : IsPlainName name) :
    r.files.any (r.pathOf name).same = true ↔ name ∈ names := by
  rw [List.any_eq_true, h.pathOf]
  constructor
  · rintro ⟨p, hp, hsame⟩
    obtain ⟨x, hx, rfl⟩ := (h.mem_iff p).mp hp
    rwa [(Path.same_join_iff hname (h.plain x hx)).mp hsame]
  · intro hmem
    exact ⟨_, (h.mem_iff _).mpr ⟨name, hmem, rfl⟩, (Path.same_join_iff hname hname).mpr rfl⟩

theorem Awaits.add (h : r.Awaits dir names) (hname : IsPlainName name) :
    (r.add name).Awaits dir (names ++ [name]) := by
  have hplain : ∀ x ∈ names ++ [name], IsPlainName x :=
    List.forall_mem_append.mpr ⟨h.plain, List.forall_mem_singleton.mpr hname⟩
  have hdir : (r.add name).dir = dir := (dir_add r name).trans h.dir_eq
  unfold Registry.add at hdir ⊢
  by_cases hmem : name ∈ names
  · rw [if_pos ((h.any_same hname).mpr hmem)]
    refine ⟨h.dir_eq, hplain, h.once, fun p => (h.mem_iff p).trans ?_⟩
    have hsame : ∀ x, x ∈ names ++ [name] ↔ x ∈ names := by
      intro x
      rw [List.mem_append, List.mem_singleton]
      exact or_iff_left_of_imp fun hx => hx ▸ hmem
    simp only [hsame]
  · rw [if_neg ((h.any_same hname).not.mpr hmem)]
    refine ⟨h.dir_eq, hplain, ?_, fun p => ?_⟩
    · refine List.pairwise_append.mpr ⟨h.once, List.pairwise_singleton _ _, fun p hp q hq => ?_⟩
      obtain rfl := List.mem_singleton.mp hq
      obtain ⟨x, hx, rfl⟩ := (h.mem_iff p).mp hp
      rw [h.pathOf, ← Bool.not_eq_true, Path.same_join_iff (h.plain x hx) hname]
      rintro rfl
      exact hmem hx
    · simp only [List.mem_append, List.mem_singleton, h.mem_iff, h.pathOf, or_and_right,
        exists_or, exists_eq_left]

end Registry

/-- Where these names wait, cleaning up takes the files of these names and nothing else, and once
is enough. -/
structure Session.TidiedUp (st : Session τ) (names : List String) (final : Session τ) : Prop where
  registry : final.registry = .within st.registry.dir
  current : final.bench.disk.current = st.bench.disk.current
  removed : ∀ name ∈ names, ∀ content x,
    final.bench.disk.find (st.registry.pathOf name) ≠ .ok (.file content x)
  directories (k : Location) : final.bench.disk.entry? k = some .directory ↔
    st.bench.disk.entry? k = some .directory
  elsewhere (k : Location) :
    (∀ name ∈ names, st.bench.disk.locate (st.registry.pathOf name) ≠ .ok k) →
    final.bench.disk.entry? k = st.bench.disk.entry? k
  others (name : String) : IsPlainName name → name ∉ names → ∀ e,
    final.bench.disk.find (st.registry.pathOf name) = .ok e ↔
      st.bench.disk.find (st.registry.pathOf name) = .ok e
  again : final.cleanup = final

namespace Session

theorem registry_onBench {α : Type} (a : Action (Bench τ) α) (st : Session τ) :
    (onBench a st).2.registry = st.registry :=
  rfl

theorem cleanup_eq_self {st : Session τ} (h : st.registry.files = []) : st.cleanup = st := by
  obtain ⟨bench, dir, files⟩ := st
  obtain rfl : files = [] := h
  rfl

theorem tidiedUp_cleanup {st : Session τ} {dir : Path} {names : List String}
    (h : st.registry.Awaits dir names) : st.TidiedUp names st.cleanup := by
  have hchanged := Disk.changedIn_discardAll st.bench.disk st.registry.files
  rw [← disk_cleanup] at hchanged
  have hpath (name : String) : st.registry.pathOf name = dir.join ⟨name⟩ := h.pathOf name
  constructor
  case registry => rfl
  case current => exact hchanged.current
  case removed =>
    intro name hname content x
    rw [disk_cleanup, hpath]
    exact Disk.find_discardAll_ne ((h.mem_iff _).mpr ⟨name, hname, rfl⟩) _ content x
  case directories => exact hchanged.directory
  case elsewhere =>
    intro k hk
    apply hchanged.elsewhere k
    rintro ⟨p, hp, hlocate⟩
    obtain ⟨name, hname, rfl⟩ := (h.mem_iff p).mp hp
    exact hk name hname (by rwa [hpath])
  case others =>
    intro name hname hnot e
    apply hchanged.find_eq_ok_iff
    rintro k hk ⟨p, hp, hlocate⟩
    obtain ⟨other, hother, rfl⟩ := (h.mem_iff p).mp hp
    have hne : name ≠ other := fun he => hnot (he ▸ hother)
    rw [hpath] at hk
    exact (Path.apart_of_fileName? (Path.fileName?_join dir hname)
      (Path.fileName?_join dir (h.plain other hother)) hne).places _ k hk hlocate
  case again => exact cleanup_eq_self rfl

end Session

inductive Upkeep
  | add (name : String)
  | makeFile (p : Path) (content : ByteArray)
  | makeDirectory (p : Path)
  | cleanup

namespace Upkeep

/-- What cannot be made changes nothing. -/
def apply (st : Session τ) : Upkeep → Session τ
  | add name => (Session.register name st).2
  | makeFile p content => (Session.onBench (Bench.change (·.write p content)) st).2
  | makeDirectory p => (Session.onBench (Bench.change (·.makeDirectory p)) st).2
  | cleanup => st.cleanup

def Plain : Upkeep → Prop
  | add name => IsPlainName name
  | _ => True

instance : (step : Upkeep) → Decidable step.Plain
  | add name => inferInstanceAs (Decidable (IsPlainName name))
  | makeFile .. | makeDirectory .. | cleanup => inferInstanceAs (Decidable True)

def waiting (names : List String) : Upkeep → List String
  | add name => names ++ [name]
  | makeFile .. | makeDirectory .. => names
  | cleanup => []

variable {st : Session τ} {dir : Path} {names : List String}

theorem awaits_apply {step : Upkeep} (h : st.registry.Awaits dir names) (hstep : step.Plain) :
    (apply st step).registry.Awaits dir (waiting names step) := by
  cases step with
  | add name => exact h.add hstep
  | makeFile p content =>
    rw [apply, Session.registry_onBench]
    exact h
  | makeDirectory p =>
    rw [apply, Session.registry_onBench]
    exact h
  | cleanup => exact Registry.awaits_nothing h.dir_eq rfl

theorem awaits_foldl {steps : List Upkeep} (h : st.registry.Awaits dir names)
    (hsteps : ∀ step ∈ steps, step.Plain) :
    (steps.foldl apply st).registry.Awaits dir (steps.foldl waiting names) := by
  induction steps generalizing st names with
  | nil => exact h
  | cons step steps ih =>
    obtain ⟨hstep, hsteps⟩ := List.forall_mem_cons.mp hsteps
    exact ih (awaits_apply h hstep) hsteps

end Upkeep

/-- However names are added, files and directories made and the session cleaned up, on any disk and
from an empty registry on: the registry lists the names that wait, each once. Cleaning up then
empties it and leaves no file of these names in the directory, whatever else there is of them; all
directories, and all that has other names or lies elsewhere, stay as they are. A second time changes
nothing. -/
theorem upkeep_tidies_up (bench : Bench τ) (dir : Path) (steps : List Upkeep)
    (h : ∀ step ∈ steps, step.Plain) :
    let st := steps.foldl Upkeep.apply ⟨bench, .within dir⟩
    let names := steps.foldl Upkeep.waiting []
    st.registry.Awaits dir names ∧ st.TidiedUp names st.cleanup := by
  intro st names
  have hawaits : st.registry.Awaits dir names :=
    Upkeep.awaits_foldl (Registry.awaits_nothing rfl rfl) h
  exact ⟨hawaits, Session.tidiedUp_cleanup hawaits⟩

/-- A file comes again after cleaning up, and a directory is where a file was expected. -/
def crowdedDesk : List Upkeep :=
  [.add "a", .makeFile ⟨"w/a"⟩ "1".toUTF8, .add "a", .cleanup, .makeFile ⟨"w/a"⟩ "2".toUTF8,
    .makeFile ⟨"w/b"⟩ "3".toUTF8, .add "d", .makeDirectory ⟨"w/d"⟩, .add "b", .add "d",
    .makeFile ⟨"w/d/b"⟩ "4".toUTF8]

theorem crowdedDesk_tidies_up :
    let start : Session Unit := ⟨⟨⟨[(["w"], .directory)], []⟩, [], ()⟩, .within ⟨"w"⟩⟩
    let st := crowdedDesk.foldl Upkeep.apply start
    (∀ step ∈ crowdedDesk, step.Plain) ∧ st.registry.files = [⟨"w/d"⟩, ⟨"w/b"⟩] ∧
      (∀ content x, st.cleanup.bench.disk.find ⟨"w/b"⟩ ≠ .ok (.file content x)) ∧
        st.cleanup.bench.disk.readText ⟨"w/a"⟩ = .ok "2" ∧
          st.cleanup.bench.disk.readText ⟨"w/d/b"⟩ = .ok "4" ∧ st.cleanup.cleanup = st.cleanup := by
  intro start st
  have hplain : ∀ step ∈ crowdedDesk, step.Plain := by decide
  have htidied : st.TidiedUp (crowdedDesk.foldl Upkeep.waiting []) st.cleanup :=
    (upkeep_tidies_up start.bench ⟨"w"⟩ crowdedDesk hplain).2
  have hfiles : st.registry.files = [⟨"w/d"⟩, ⟨"w/b"⟩] := by decide +kernel
  have hpath : st.registry.pathOf "b" = ⟨"w/b"⟩ := by decide +kernel
  have hkept : st.cleanup.bench.disk.readText ⟨"w/a"⟩ = .ok "2" := by decide +kernel
  have hinside : st.cleanup.bench.disk.readText ⟨"w/d/b"⟩ = .ok "4" := by decide +kernel
  have hremoved := htidied.removed "b" (by decide)
  rw [hpath] at hremoved
  exact ⟨hplain, hfiles, hremoved, hkept, hinside, htidied.again⟩

end PbesLab

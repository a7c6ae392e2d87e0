import PbesLab.Proofs.Trial.Blocks
import PbesLab.Proofs.Trial.Counterexample
import PbesLab.Proofs.Trial.Steps
import PbesLab.Proofs.Trial.Traces

namespace PbesLab

open PbesLab.Action

variable {τ : Type}

/-- The files of a test, those of the tests of a search under the same name, and its result. -/
def seriesFiles (name : String) : List String :=
  [sourceName name, concreteName name, abstractedName name, sourceName (name ++ "_minimize"),
    concreteName (name ++ "_minimize"), abstractedName (name ++ "_minimize"),
    name ++ "_minimized.txt"]

theorem seriesFiles_apart (dir : Path) (name : String) :
    ((seriesFiles name).map fun file => dir.join ⟨file⟩).Pairwise Path.Apart := by
  let endings := [".txt", "a.pbes", "b.pbes", "_minimize.txt", "_minimizea.pbes",
    "_minimizeb.pbes", "_minimized.txt"]
  have hendings : ∀ ending ∈ endings, IsEnding ending := by decide
  have hnodup : endings.Pairwise (· ≠ ·) := by decide
  have hfiles : seriesFiles name = endings.map (name ++ ·) := by
    simp only [seriesFiles, sourceName, concreteName, abstractedName, String.append_assoc]
    rfl
  rw [hfiles, List.map_map, List.pairwise_map]
  refine hnodup.imp_of_mem fun hmem hmem' hne => ?_
  exact Path.apart_of_endings dir name (hendings _ hmem) (hendings _ hmem') hne

namespace Disk

variable {start d d' : Disk} {dir : Path} {name ending : String} {endings others : List String}

/-- Since `start` there have been outputs at files of the name with these endings only. -/
structure Touched (start : Disk) (dir : Path) (name : String) (endings : List String) (d : Disk) :
    Prop where
  traced : start.Traced dir name (endings.map fun ending => dir.join ⟨name ++ ending⟩) d
  endings : ∀ ending ∈ endings, IsEnding ending

namespace Touched

theorem output (h : start.Touched dir name endings d) (hmem : ending ∈ endings)
    (hd : OnlyAt (d.locate (dir.join ⟨name ++ ending⟩) = .ok ·) d d') :
    start.Touched dir name endings d' :=
  ⟨h.traced.output (h.endings ending hmem) (List.mem_map_of_mem hmem) hd, h.endings⟩

theorem mono (h : start.Touched dir name endings d) (hsub : endings ⊆ others)
    (hothers : ∀ ending ∈ others, IsEnding ending) : start.Touched dir name others d :=
  ⟨h.traced.mono (List.map_subset _ hsub), hothers⟩

theorem trans (h : start.Touched dir name endings d) (h' : d.Touched dir name endings d') :
    start.Touched dir name endings d' := by
  refine ⟨⟨h'.traced.current.trans h.traced.current, fun other hother k => ?_, fun k hk => ?_⟩,
    h.endings⟩
  · exact (h'.traced.places other hother k).trans (h.traced.places other hother k)
  · refine (h'.traced.elsewhere k ?_).trans (h.traced.elsewhere k hk)
    intro p hp hlocate
    obtain ⟨ending, hmem, rfl⟩ := List.mem_map.mp hp
    exact hk _ hp ((h.traced.places ending (h.endings ending hmem) k).mp hlocate)

/-- A file with another ending is there as it was. -/
theorem find_eq_ok (h : start.Touched dir name endings d) (hending : IsEnding ending)
    (hnot : ending ∉ endings) (e : Entry) :
    d.find (dir.join ⟨name ++ ending⟩) = .ok e ↔
      start.find (dir.join ⟨name ++ ending⟩) = .ok e := by
  have hentry : ∀ k, start.locate (dir.join ⟨name ++ ending⟩) = .ok k →
      d.entry? k = start.entry? k := by
    intro k hk
    apply h.traced.elsewhere
    intro p hp
    obtain ⟨other, hmem, rfl⟩ := List.mem_map.mp hp
    have hne : ending ≠ other := fun he => hnot (he ▸ hmem)
    exact (Path.apart_of_endings dir name hending (h.endings other hmem) hne).places start k hk
  rw [Disk.find_eq_ok, Disk.find_eq_ok]
  constructor
  · rintro ⟨k, hk, he⟩
    have hk' := (h.traced.places ending hending k).mp hk
    exact ⟨k, hk', (hentry k hk').symm.trans he⟩
  · rintro ⟨k, hk, he⟩
    exact ⟨k, (h.traced.places ending hending k).mpr hk, (hentry k hk).trans he⟩

end Touched

theorem touched_refl (dir : Path) (name : String) (h : ∀ ending ∈ endings, IsEnding ending) :
    start.Touched dir name endings start :=
  ⟨.refl _ _ _ _, h⟩

end Disk

/-- Since `start` only files of a search under the name have been touched. -/
structure Session.Searched (start : Disk) (dir : Path) (name : String) (st : Session τ) : Prop where
  within : st.registry.dir = dir
  disk : start.Touched dir name searchEndings st.bench.disk

namespace Tools

open Session

variable {tools : Tools τ} {start : Disk} {dir : Path} {name : String} {strategy : Strategy}

/-- Whatever a search does, it touches its own files. -/
theorem WritesOutput.searched_step (h : tools.WritesOutput) {st st' : Session τ}
    (hstep : tools.Step (searchFiles name) st st') (hst : Searched start dir name st) :
    Searched start dir name st' := by
  have hfile {file : String} (hmem : file ∈ searchFiles name) : ∃ ending ∈ searchEndings,
      st.registry.pathOf file = dir.join ⟨name ++ ending⟩ := by
    rw [searchFiles_eq] at hmem
    obtain ⟨ending, hending, rfl⟩ := List.mem_map.mp hmem
    exact ⟨ending, hending, by rw [Registry.pathOf, hst.within]⟩
  cases hstep with
  | register _ => exact ⟨(Registry.dir_add _ _).trans hst.within, hst.disk⟩
  | write hmem written =>
    obtain ⟨ending, hending, hpath⟩ := hfile hmem
    rw [hpath] at written
    exact ⟨hst.within, hst.disk.output hending (Disk.onlyAt_write written)⟩
  | convert _ hout =>
    obtain ⟨ending, hending, hpath⟩ := hfile hout
    rw [hpath]
    exact ⟨hst.within, hst.disk.output hending (h.convert _ _ _)⟩
  | abstract strategy _ hout =>
    obtain ⟨ending, hending, hpath⟩ := hfile hout
    rw [hpath]
    exact ⟨hst.within, hst.disk.output hending (h.abstract _ _ strategy _)⟩
  | solve hin =>
    obtain ⟨ending, hending, -⟩ := hfile hin
    exact ⟨hst.within, hst.disk.output hending ((h.solve _ _).mono fun _ => False.elim)⟩
  | tell line => exact ⟨hst.within, hst.disk⟩

/-- A search touches its own files, whether it ends well or not, and so does storing its result. -/
theorem WritesOutput.searched_minimize (h : tools.WritesOutput) (s : EqSystem)
    (strategy : Strategy) : Keeps (Searched start dir name) (tools.minimize s name strategy) :=
  keeps_minimize (fun _ _ hstep => h.searched_step hstep) (List.Subset.refl _) s

theorem WritesOutput.touched_convert (h : tools.WritesOutput) {input : Path} {b b' : Bench τ}
    {r : Except Failure Unit}
    (hcall : tools.convert input (dir.join ⟨name ++ "a.pbes"⟩) b = (r, b')) :
    b.disk.Touched dir name ["a.pbes"] b'.disk := by
  have hout := h.convert input (dir.join ⟨name ++ "a.pbes"⟩) b
  rw [hcall] at hout
  exact (Disk.touched_refl dir name (by decide)).output List.mem_cons_self hout

theorem WritesOutput.touched_abstract (h : tools.WritesOutput) {input : Path} {b b' : Bench τ}
    {r : Except Failure Bool}
    (hcall : tools.abstract input (dir.join ⟨name ++ "b.pbes"⟩) strategy b = (r, b')) :
    b.disk.Touched dir name ["b.pbes"] b'.disk := by
  have hout := h.abstract input (dir.join ⟨name ++ "b.pbes"⟩) strategy b
  rw [hcall] at hout
  exact (Disk.touched_refl dir name (by decide)).output List.mem_cons_self hout

/-- Solving touches nothing. -/
theorem WritesOutput.touched_judge (h : tools.WritesOutput) (dir : Path) (name : String)
    {testName : String}
    {concrete abstracted : Path} {done : Bool} {b b' : Bench τ} {r : Except Failure Outcome}
    (hcall : tools.judge testName strategy concrete abstracted done b = (r, b')) :
    b.disk.Touched dir name searchEndings b'.disk := by
  have hsolve (input : Path) :
      Keeps (fun b' => b.disk.Touched dir name searchEndings b'.disk) (tools.solve input) := by
    intro b₁ hb₁
    have hmem : "_minimize.txt" ∈ searchEndings := by decide
    exact hb₁.output hmem ((h.solve input b₁).mono fun _ => False.elim)
  have hkeeps : Keeps (fun b' => b.disk.Touched dir name searchEndings b'.disk)
      (tools.judge testName strategy concrete abstracted done) := by
    unfold judge
    refine Keeps.bind (hsolve concrete) fun before => Keeps.bind ?_ fun after =>
      Keeps.bind (fun _ hb => hb) fun _ => keeps_pure _ _
    split
    · exact hsolve abstracted
    · exact keeps_pure _ none
  have hend := hkeeps b (Disk.touched_refl dir name (by decide))
  rw [hcall] at hend
  exact hend

/-- Only with a result of the abstraction are there two answers. -/
theorem done_of_mismatch {testName : String} {concrete abstracted : Path} {done : Bool}
    {b b' : Bench τ} {x y : Bool}
    (h : tools.judge testName strategy concrete abstracted done b = (.ok (.mismatch x y), b')) :
    done = true := by
  cases done with
  | true => rfl
  | false =>
    obtain ⟨before, b₁, -, hrest⟩ := Action.bind_eq_ok.mp h
    obtain ⟨after, b₂, hafter, hlast⟩ := Action.bind_eq_ok.mp hrest
    cases hafter
    obtain ⟨-, b₃, -, houtcome⟩ := Action.bind_eq_ok.mp hlast
    cases before <;> cases houtcome

/-- However a series closes, what a search after it keeps is there in the end. -/
theorem Closes.keeps {plan : Plan} {count : Nat} {last : Session τ} {trials : List Trial}
    {done : Except Failure Unit × Session τ} {P : Session τ → Prop}
    (h : tools.Closes plan count last trials done)
    (hminimize : ∀ s strategy, Keeps P (tools.minimize s plan.name strategy)) (hlast : P last) :
    P done.2 := by
  cases h with
  | passed length pass => exact hlast
  | broken pass result => exact hlast
  | mismatch pass result plain => exact hlast
  | @minimized _ t _ _ _ _ pass result minimize search
  | @abandoned _ t _ _ _ _ pass result minimize search =>
    have hend := hminimize t.system t.strategy last hlast
    rw [search] at hend
    exact hend

/-- The last of several tests, and the session that it finds. -/
theorem Makes.exists_reached {before : List Trial} {t : Trial} {st last : Session τ}
    (h : tools.Makes st (before ++ [t]) last) : ∃ reached, tools.Makes st before reached ∧
      tools.test t.system t.name t.strategy reached = (t.result, last) := by
  induction before generalizing st with
  | nil =>
    cases h with
    | cons htest hrest =>
      cases hrest
      exact ⟨st, .nil st, htest⟩
  | cons u before ih =>
    cases h with
    | cons htest hrest =>
      obtain ⟨reached, hmakes, hlast⟩ := ih hrest
      exact ⟨reached, .cons htest hmakes, hlast⟩

theorem dir_test (tools : Tools τ) (s : EqSystem) (name : String) (strategy : Strategy)
    (st : Session τ) : (tools.test s name strategy st).2.registry.dir = st.registry.dir := by
  apply Ends.final (P := fun st' : Session τ => st'.registry.dir = st.registry.dir)
  apply ends_test
  · intro disk _
    exact ⟨fun _ _ => Registry.dir_addTest _ _, fun _ _ => Registry.dir_addTest _ _⟩
  · exact fun _ _ => Registry.dir_add _ _

theorem Makes.dir_eq {trials : List Trial} {st last : Session τ}
    (h : tools.Makes st trials last) : last.registry.dir = st.registry.dir := by
  induction h with
  | nil st => rfl
  | @cons st t st' rest last htest _ ih =>
    have hdir := dir_test tools t.system t.name t.strategy st
    rw [htest] at hdir
    exact ih.trans hdir

end Tools

/-- The files of a test that has been made in this session are on the disk as the test has written
them. The source has the text of the system, unless it is a device, and the other two have what
conversion and abstraction have left there. -/
def Trial.Evident (tools : Tools τ) (dir : Path) (reached : Session τ) (t : Trial) (final : Disk) :
    Prop :=
  (final.find (t.source dir) = .ok .sink ∨ final.readText (t.source dir) = .ok t.system.text) ∧
  ∃ written converted abstracted,
    reached.bench.disk.writeText (t.source dir) t.system.text = .ok written ∧
    tools.convert (t.source dir) (t.concrete dir)
      ⟨written, reached.bench.log, reached.bench.tools⟩ = (.ok (), converted) ∧
    tools.abstract (t.concrete dir) (t.abstracted dir) t.strategy converted =
      (.ok true, abstracted) ∧
    (∀ e, final.find (t.concrete dir) = .ok e ↔ converted.disk.find (t.concrete dir) = .ok e) ∧
    ∀ e, final.find (t.abstracted dir) = .ok e ↔ abstracted.disk.find (t.abstracted dir) = .ok e

theorem Tools.WritesOutput.evident {tools : Tools τ} (h : tools.WritesOutput) {dir : Path}
    {reached last : Session τ} {t : Trial} {x y : Bool} {final : Disk}
    (hdir : reached.registry.dir = dir)
    (htest : tools.test t.system t.name t.strategy reached = (.ok (.mismatch x y), last))
    (hfinal : last.bench.disk.Touched dir t.name searchEndings final) :
    t.Evident tools dir reached final := by
  subst hdir
  obtain ⟨written, converted, done, made, hwrite, hconvert, habstract, hjudge, -⟩ :=
    test_eq_ok htest
  obtain rfl := done_of_mismatch hjudge
  -- each call touches one file at most
  have hconverted := h.touched_convert hconvert
  have hmade := h.touched_abstract habstract
  have hjudged := h.touched_judge reached.registry.dir t.name hjudge
  let dir := reached.registry.dir
  have hlater : ∀ ending ∈ "b.pbes" :: searchEndings, IsEnding ending := by decide
  have hall : ∀ ending ∈ "a.pbes" :: "b.pbes" :: searchEndings, IsEnding ending := by decide
  have hfrom₃ : made.disk.Touched dir t.name searchEndings final := hjudged.trans hfinal
  have hfrom₂ : converted.disk.Touched dir t.name ("b.pbes" :: searchEndings) final :=
    (hmade.mono (by decide) hlater).trans (hfrom₃.mono (by decide) hlater)
  have hfrom₁ : written.Touched dir t.name ("a.pbes" :: "b.pbes" :: searchEndings) final :=
    (hconverted.mono (by decide) hall).trans (hfrom₂.mono (by decide) hall)
  refine ⟨?_, written, converted, made, hwrite, hconvert, habstract, ?_, ?_⟩
  · have hsource : ∀ e, final.find (t.source dir) = .ok e ↔ written.find (t.source dir) = .ok e :=
      hfrom₁.find_eq_ok (by decide) (by decide)
    obtain hsink | ⟨executable, hfile⟩ := Disk.find_of_writeText hwrite
    · exact .inl ((hsource _).mpr hsink)
    · exact .inr (Disk.readText_of_find ((hsource _).mpr hfile))
  · exact hfrom₂.find_eq_ok (by decide) (by decide)
  · exact hfrom₃.find_eq_ok (by decide) (by decide)

/-- For tools that leave things at their output only, in any session and with any plan and stream:
if the last test of a series ends with different answers, then, whether a search follows and however
that ends, the files of this test are in the end as it has written them, when the files are kept. No
two files of a series and its search are at one path, or at one place, under any name. -/
theorem evidence_survives {tools : Tools τ} (h : tools.WritesOutput) :
    (∀ (plan : Plan) (draws : Sampling.Draws) (st : Session τ) (before : List Trial) (t : Trial)
        (x y : Bool), tools.trials plan plan.iterations 0 draws st = before ++ [t] →
      t.result = .ok (.mismatch x y) →
      t.system = Sampling.drawn plan.settings draws before.length ∧ t.name = plan.name ∧
      ∃ reached, tools.Makes st before reached ∧
        t.Evident tools st.registry.dir reached (tools.runSeries true plan draws st).2.bench.disk) ∧
    ∀ (dir : Path) (name : String),
      ((seriesFiles name).map fun file => dir.join ⟨file⟩).Pairwise Path.Apart := by
  refine ⟨?_, seriesFiles_apart⟩
  intro plan draws st before t x y htrials hmismatch
  obtain ⟨last, hmakes, hcloses⟩ := tools.iterate_closes plan plan.iterations 0 draws st
  have hlast : (tools.trials plan plan.iterations 0 draws st)[before.length]? = some t := by
    rw [htrials]
    exact List.getElem?_concat_length
  obtain ⟨hsystem, hname, -⟩ := tools.trials_drawn plan draws plan.iterations 0 st hlast
  rw [Nat.zero_add] at hsystem
  rw [htrials] at hmakes hcloses
  have hdir := hmakes.dir_eq
  obtain ⟨reached, hbefore, htest⟩ := hmakes.exists_reached
  rw [hmismatch] at htest
  have hsearched : Session.Searched last.bench.disk st.registry.dir plan.name
      (tools.iterate plan plan.iterations 0 draws st).2 := by
    refine hcloses.keeps (fun s strategy => h.searched_minimize s strategy) ⟨hdir, ?_⟩
    exact Disk.touched_refl _ _ (by decide)
  refine ⟨hsystem, hname, reached, hbefore, h.evident hbefore.dir_eq htest ?_⟩
  rw [hname]
  exact hsearched.disk

theorem Bench.read_bench (input : Path) (b : Bench Unit) : (read input b).2 = b := by
  unfold read
  cases b.disk.readBytes input with
  | error e => rfl
  | ok content => rfl

/-- Reading a file first changes nothing. -/
theorem Bench.onlyAt_read {α : Type} {P : Disk → Location → Prop} (input : Path)
    {a : ByteArray → Action (Bench Unit) α}
    (ha : ∀ content (b : Bench Unit), b.disk.OnlyAt (P b.disk) (a content b).2.disk)
    (b : Bench Unit) : b.disk.OnlyAt (P b.disk) ((read input >>= a) b).2.disk := by
  have hbench := read_bench input b
  rw [bind_apply]
  rcases hr : read input b with ⟨e | content, b'⟩
  · rw [hr] at hbench
    obtain rfl : b' = b := hbench
    exact .refl _ _
  · rw [hr] at hbench
    obtain rfl : b' = b := hbench
    exact ha content b'

theorem FileResults.writesOutput (f : FileResults Failure) (litter : ByteArray) :
    (f.tools litter).WritesOutput where
  convert input output := by
    apply Bench.onlyAt_read (P := fun d k => d.locate output = .ok k)
    intro content b
    cases f.convert content with
    | ok written => exact Bench.onlyAt_write output written b
    | error e => exact Bench.onlyAt_write_bind (fun _ => rfl) output litter b
  abstract input output strategy := by
    apply Bench.onlyAt_read (P := fun d k => d.locate output = .ok k)
    intro content b
    cases f.abstract strategy content with
    | error e => exact Bench.onlyAt_write_bind (fun _ => rfl) output litter b
    | ok result =>
      cases result with
      | none => exact Bench.onlyAt_write_bind (fun _ => rfl) output litter b
      | some written => exact Bench.onlyAt_write_bind (fun _ => rfl) output written b
  solve input := by
    apply Bench.onlyAt_read (P := fun _ _ => False)
    intro content b
    cases f.solve content with
    | ok answer => exact .refl _ _
    | error e => exact .refl _ _

/-- Makes one byte of everything and nothing of that, and answers yes on nothing. -/
def differingResults : FileResults Failure where
  convert _ := .ok ⟨#[0]⟩
  abstract _ _ := .ok (some .empty)
  solve content := .ok (some (content.size = 0))

theorem differingResults_judges (s : EqSystem) (strategy : Strategy) :
    differingResults.Judges s strategy false :=
  ⟨.mismatch false true, rfl, rfl⟩

theorem Tools.trials_one (tools : Tools τ) (plan : Plan) (draws : Sampling.Draws) (st : Session τ) :
    let s := Sampling.drawn plan.settings draws 0
    tools.trials plan 1 0 draws st =
      [⟨s, plan.name, plan.strategyAt 0, (tools.test s plan.name (plan.strategyAt 0) st).1⟩] := by
  intro s
  unfold trials
  dsimp only
  split
  · rfl
  · rfl

theorem differingResults_evidence :
    let tools := differingResults.tools .empty
    let plan : Plan := ⟨1, ⟨1, 1, 1, false⟩, none, true, "x"⟩
    let draws := Sampling.Draws.ofSeed 0
    let start : Session Unit := ⟨⟨⟨[(["w"], .directory)], []⟩, [], ()⟩, .within ⟨"w"⟩⟩
    tools.WritesOutput ∧ ∃ t x y, tools.trials plan plan.iterations 0 draws start = [] ++ [t] ∧
      t.result = .ok (.mismatch x y) ∧ t.system = Sampling.drawn plan.settings draws 0 ∧
      ∃ reached, tools.Makes start [] reached ∧
        t.Evident tools ⟨"w"⟩ reached (tools.runSeries true plan draws start).2.bench.disk := by
  intro tools plan draws start
  have hwrites : tools.WritesOutput := differingResults.writesOutput .empty
  have hadmits : start.Admits "x" := by
    have hwritable : ∀ ending ∈ testEndings, start.bench.disk.writable
        (start.registry.pathOf ("x" ++ ending)) = .ok ["w", "x" ++ ending] := by decide
    intro ending hending
    exact ⟨_, hwritable ending hending, nofun⟩
  have htrials := tools.trials_one plan draws start
  have hmismatches : tools.Mismatches (Sampling.drawn plan.settings draws 0) (plan.strategyAt 0) :=
    (differingResults.follows Disk.isFrame_changedIn .empty).mismatches_of_judges
      (differingResults_judges _ _)
  obtain ⟨x, y, hmismatch⟩ := hmismatches start plan.name hadmits
  dsimp only at htrials
  rw [hmismatch] at htrials
  obtain ⟨hsystem, -, hreached⟩ :=
    (evidence_survives hwrites).1 plan draws start [] _ x y htrials rfl
  exact ⟨hwrites, _, x, y, htrials, rfl, hsystem, hreached⟩

end PbesLab

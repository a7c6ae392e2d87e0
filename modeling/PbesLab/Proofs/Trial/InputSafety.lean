import PbesLab.CommandLine.Program
import PbesLab.Proofs.Disk.Extension
import PbesLab.Proofs.EqSystem.Echo
import PbesLab.Proofs.Trial.Counterexample
import PbesLab.Proofs.Trial.Launch
import PbesLab.Proofs.Trial.Steps

namespace PbesLab

open PbesLab.Action

variable {τ : Type}

theorem checkFiles_eq (name : String) : checkFiles name = operationEndings.map (name ++ ·) := by
  simp only [checkFiles, searchFiles, testFiles, sourceName, concreteName, abstractedName,
    String.append_assoc]
  rfl

namespace Path

variable {file : Path} {name ending : String}

/-- What is named after a file, with an underscore, is another file. -/
theorem apart_of_stem (h : file.stem? = some name) (hending : IsEnding ending)
    (hhead : ending.toList.head? = some '_') (dir : Path) :
    IsPlainName (name ++ ending) ∧ (dir.join ⟨name ++ ending⟩).Apart file := by
  obtain ⟨whole, hwhole, rfl⟩ := Option.map_eq_some_iff.mp h
  have hplain : IsPlainName (stemOf whole ++ ending) := by
    refine ⟨?_, hending.not_dots _⟩
    rw [String.toList_append, List.mem_append, not_or]
    exact ⟨slash_notMem_stemOf (slash_notMem_fileName hwhole), hending.1⟩
  have hne : stemOf whole ++ ending ≠ whole :=
    stemOf_append_ne hending.toList_ne_nil (by rw [hhead]; decide)
  exact ⟨hplain, apart_of_fileName? (fileName?_join dir hplain) hwhole hne⟩

/-- None of the files of a check, and no answer beside one of them, is the file that it is named
after. -/
theorem apart_checkFiles (h : file.stem? = some name) (dir : Path) {f : String}
    (hf : f ∈ checkFiles name) :
    (dir.join ⟨f⟩).Apart file ∧ (Installation.answerPath (dir.join ⟨f⟩)).Apart file := by
  have hparts : ∀ ending ∈ operationEndings, IsEnding ending ∧ ending.toList.head? = some '_' ∧
      ∃ part ∈ ["_check", "_checka", "_checkb", "_minimize", "_minimizea", "_minimizeb",
        "_minimized"], ∃ ext ∈ ["txt", "pbes"], ending = part ++ "." ++ ext := by decide
  have hanswers : ∀ part ∈ ["_check", "_checka", "_checkb", "_minimize", "_minimizea",
      "_minimizeb", "_minimized"], part ≠ "" ∧ IsEnding (part ++ "." ++ "answer") ∧
        (part ++ "." ++ "answer").toList.head? = some '_' := by decide
  have hexts : ∀ ext ∈ ["txt", "pbes"], '.' ∉ ext.toList := by decide
  rw [checkFiles_eq] at hf
  obtain ⟨ending, hmem, rfl⟩ := List.mem_map.mp hf
  obtain ⟨hending, hhead, part, hpart, ext, hext, rfl⟩ := hparts _ hmem
  obtain ⟨hpart, hanswer, hanswerHead⟩ := hanswers _ hpart
  obtain ⟨hplain, hapart⟩ := apart_of_stem h hending hhead dir
  obtain ⟨hplain', hapart'⟩ := apart_of_stem h hanswer hanswerHead dir
  refine ⟨hapart, ?_⟩
  have hstem : stemOf (name ++ (part ++ "." ++ ext)) = name ++ part := by
    rw [← String.append_assoc, ← String.append_assoc]
    refine stemOf_append_stop ?_ (hexts _ hext)
    exact fun hempty => hpart (String.append_eq_empty_iff.mp hempty).2
  have hother : stemOf (name ++ (part ++ "." ++ ext)) ++ "." ++ "answer" =
      name ++ (part ++ "." ++ "answer") := by
    rw [hstem, String.append_assoc, String.append_assoc, String.append_assoc]
  rw [Installation.answerPath, withExtension_join dir hplain (hother ▸ hplain'), hother]
  exact hapart'

end Path

namespace Disk

variable {d d' d'' : Disk} {p file : Path}

/-- Where the path leads there is what was there, and it leads there still. -/
def Spares (file : Path) (d d' : Disk) : Prop :=
  OnlyAt (fun k => d.locate file ≠ .ok k) d d'

theorem spares_refl (file : Path) (d : Disk) : Spares file d d :=
  .refl _ d

theorem Spares.find (h : Spares file d d') {e : Entry} (he : d.find file = .ok e) :
    d'.find file = .ok e := by
  obtain ⟨l, hl, -⟩ := find_eq_ok.mp he
  rw [OnlyAt.find_eq h hl (not_not_intro hl)]
  exact he

theorem Spares.readText (h : Spares file d d') {text : String} (ht : d.readText file = .ok text) :
    d'.readText file = .ok text := by
  unfold Disk.readText readBytes at ht ⊢
  cases hfind : d.find file with
  | error e => simp [hfind, bind, Except.bind] at ht
  | ok e =>
    rw [h.find hfind]
    rwa [hfind] at ht

theorem Spares.trans (h : Spares file d d') (h' : Spares file d' d'') : Spares file d d'' where
  current := h'.current.trans h.current
  elsewhere k hk := by
    have hplace := OnlyAt.locate h (not_not.mp hk)
    exact (h'.elsewhere k (not_not_intro hplace)).trans (h.elsewhere k hk)
  directory k hk := h'.directory k (h.directory k hk)

theorem spares_of_onlyAt (hp : p.Apart file) (h : OnlyAt (d.locate p = .ok ·) d d') :
    Spares file d d' :=
  h.mono fun k hk => hp.places d k hk

theorem spares_discardAll {ps : List Path} (hps : ∀ p ∈ ps, p.Apart file) :
    Spares file d (d.discardAll ps).1 := by
  refine (changedIn_discardAll d ps).onlyAt.mono ?_
  rintro k ⟨p, hp, hk⟩
  exact (hps p hp).places d k hk

end Disk

namespace ToolCall

/-- Where a call is to leave something. The answer of a solver is collected beside its input. -/
def outputs : ToolCall → List Path
  | convert _ _ output _ => [output]
  | abstract _ _ output _ _ => [output]
  | solve _ input _ => [Installation.answerPath input]

def found : ToolCall → Disk
  | convert disk .. => disk
  | abstract disk .. => disk
  | solve disk .. => disk

end ToolCall

namespace Session

structure Avoids (dir file : Path) (st : Session τ) : Prop where
  within : st.registry.dir = dir
  registered : ∀ p ∈ st.registry.files, p.Apart file

end Session

namespace Tools

open Session

/-- The files of these names are apart from the file, and so are the answers beside them. -/
def KeepsOff (dir file : Path) (files : List String) : Prop :=
  ∀ f ∈ files, (dir.join ⟨f⟩).Apart file ∧ (Installation.answerPath (dir.join ⟨f⟩)).Apart file

variable {tools : Tools τ} {files : List String} {dir file : Path}

section

variable {st st' : Session τ}

theorem Step.avoids (h : tools.Step files st st') (hfiles : KeepsOff dir file files)
    (hst : st.Avoids dir file) : st'.Avoids dir file := by
  cases h with
  | @register f hf =>
    refine ⟨(Registry.dir_add _ _).trans hst.within, fun p hp => ?_⟩
    obtain hp | rfl := Registry.mem_add hp
    · exact hst.registered p hp
    · rw [Registry.pathOf, hst.within]
      exact (hfiles f hf).1
  | write _ _ | convert _ _ | abstract _ _ _ | solve _ | tell _ =>
    exact ⟨hst.within, hst.registered⟩

theorem avoids_of_steps (hsteps : Relation.ReflTransGen (tools.Step files) st st')
    (hfiles : KeepsOff dir file files) (hst : st.Avoids dir file) : st'.Avoids dir file := by
  induction hsteps with
  | refl => exact hst
  | tail _ hstep ih => exact hstep.avoids hfiles ih

end

section

variable {st st' : Session (τ × List ToolCall)}

/-- A step makes one call at most, which finds the disk as it is before. -/
theorem Step.record_cases (h : tools.recording.Step files st st') : st'.record = st.record ∨
    ∃ call, st'.record = st.record ++ [call] ∧ call.found = st.bench.disk ∧
      ∃ f ∈ files, call.outputs = [st.registry.pathOf f] ∨
        call.outputs = [Installation.answerPath (st.registry.pathOf f)] := by
  cases h with
  | register _ | write _ _ | tell _ => exact .inl rfl
  | convert _ hout => exact .inr ⟨_, rfl, rfl, _, hout, .inl rfl⟩
  | abstract _ _ hout => exact .inr ⟨_, rfl, rfl, _, hout, .inl rfl⟩
  | solve hin => exact .inr ⟨_, rfl, rfl, _, hin, .inr rfl⟩

theorem Step.spares (h : tools.recording.Step files st st')
    (hfiles : KeepsOff st.registry.dir file files)
    (hconfined : ∀ call ∈ st'.record, tools.Confines call) :
    st.bench.disk.Spares file st'.bench.disk := by
  have hlast {call : ToolCall} (hcall : st'.record = st.record ++ [call]) :
      tools.Confines call := by
    apply hconfined
    rw [hcall]
    exact List.mem_append_right _ List.mem_cons_self
  cases h with
  | register _ | tell _ => exact Disk.spares_refl file _
  | write hfile written =>
    exact Disk.spares_of_onlyAt (hfiles _ hfile).1 (Disk.onlyAt_write written)
  | convert _ hout =>
    exact Disk.spares_of_onlyAt (hfiles _ hout).1 (hlast rfl st.bench.forget rfl)
  | abstract strategy _ hout =>
    exact Disk.spares_of_onlyAt (hfiles _ hout).1 (hlast rfl st.bench.forget rfl)
  | solve hin => exact Disk.spares_of_onlyAt (hfiles _ hin).2 (hlast rfl st.bench.forget rfl)

/-- Every call is to leave things elsewhere. -/
theorem outputs_apart_of_steps (hsteps : Relation.ReflTransGen (tools.recording.Step files) st st')
    (hfiles : KeepsOff dir file files) (hst : st.Avoids dir file) (hrecord : st.record = []) :
    ∀ call ∈ st'.record, ∀ p ∈ call.outputs, p.Apart file := by
  induction hsteps with
  | refl =>
    rw [hrecord]
    exact nofun
  | @tail st₁ st₂ hsteps hstep ih =>
    obtain hsame | ⟨call, hcall, -, f, hf, houtputs⟩ := hstep.record_cases
    · rwa [hsame]
    · rw [hcall]
      refine List.forall_mem_append.mpr ⟨ih, List.forall_mem_singleton.mpr fun p hp => ?_⟩
      have hwithin := (avoids_of_steps hsteps hfiles hst).within
      rw [Registry.pathOf, hwithin] at houtputs
      obtain houtputs | houtputs := houtputs
      · obtain rfl := List.mem_singleton.mp (houtputs ▸ hp)
        exact (hfiles f hf).1
      · obtain rfl := List.mem_singleton.mp (houtputs ▸ hp)
        exact (hfiles f hf).2

/-- If every call leaves things where it is to, every call finds the file as it was at the start. -/
theorem spares_of_steps (hsteps : Relation.ReflTransGen (tools.recording.Step files) st st')
    (hfiles : KeepsOff dir file files) (hst : st.Avoids dir file) (hrecord : st.record = [])
    (hconfined : ∀ call ∈ st'.record, tools.Confines call) :
    st.bench.disk.Spares file st'.bench.disk ∧
      ∀ call ∈ st'.record, st.bench.disk.Spares file call.found := by
  induction hsteps with
  | refl =>
    rw [hrecord]
    exact ⟨Disk.spares_refl file _, nofun⟩
  | @tail st₁ st₂ hsteps hstep ih =>
    have hwithin := (avoids_of_steps hsteps hfiles hst).within
    have hspared := hstep.spares (hwithin.symm ▸ hfiles) hconfined
    obtain hsame | ⟨call, hcall, hfound, -⟩ := hstep.record_cases
    · obtain ⟨hdisk, hcalls⟩ := ih (hsame ▸ hconfined)
      rw [hsame]
      exact ⟨hdisk.trans hspared, hcalls⟩
    -- the record only grows, so the earlier calls are confined as well
    · rw [hcall] at hconfined ⊢
      obtain ⟨hdisk, hcalls⟩ := ih (List.forall_mem_append.mp hconfined).1
      refine ⟨hdisk.trans hspared, List.forall_mem_append.mpr ⟨hcalls, ?_⟩⟩
      rw [List.forall_mem_singleton, hfound]
      exact hdisk

end

end Tools

theorem Session.Avoids.spares_finish {dir file : Path} {st : Session τ} (h : st.Avoids dir file)
    (keepFiles : Bool) : st.bench.disk.Spares file (st.finish keepFiles).bench.disk := by
  cases keepFiles with
  | true => exact Disk.spares_refl file _
  | false =>
    have hdisk : (st.finish false).bench.disk = (st.bench.disk.discardAll st.registry.files).1 :=
      disk_cleanup st
    rw [hdisk]
    exact Disk.spares_discardAll h.registered

theorem Tools.spares_checkAndMinimize (tools : Tools τ) {dir file : Path} {name : String}
    (hfiles : Tools.KeepsOff dir file (checkFiles name)) (keepFiles : Bool) (s : EqSystem)
    (strategy : Strategy) (bench : Bench τ) :
    let start : Session τ := ⟨bench, .within dir⟩
    let calls :=
      (tools.recording.checkAndMinimize keepFiles s name strategy start.recorded).2.record
    (∀ call ∈ calls, tools.Confines call) →
      bench.disk.Spares file
        (tools.checkAndMinimize keepFiles s name strategy start).2.bench.disk ∧
      ∀ call ∈ calls, bench.disk.Spares file call.found := by
  intro start calls hconfined
  have hstart : Session.Avoids dir file start.recorded := ⟨rfl, nofun⟩
  obtain ⟨last, hsteps, hlast⟩ :=
    tools.recording.exists_steps keepFiles s name strategy start.recorded
  have hrecord : calls = last.record := by rw [← Session.record_finish keepFiles last, ← hlast]
  rw [hrecord] at hconfined ⊢
  obtain ⟨hbefore, hcalls⟩ := Tools.spares_of_steps hsteps hfiles hstart rfl hconfined
  have havoids := Tools.avoids_of_steps hsteps hfiles hstart
  have hforget := tools.over_checkAndMinimize keepFiles s name strategy start.recorded
  rw [Session.forget_recorded, hlast] at hforget
  rw [hforget]
  exact ⟨hbefore.trans (havoids.spares_finish keepFiles), hcalls⟩

namespace CommandLine

variable {file : Path} {name : String}

theorem Console.spares_inSession {α : Type} {dir : Path} {a : Action (Session Unit) α} {c : Console}
    (h : c.bench.disk.Spares file (a ⟨c.bench, .within dir⟩).2.bench.disk) :
    c.bench.disk.Spares file (inSession dir a c).2.bench.disk :=
  h

/-- Reading changes nothing. -/
theorem readSystem_console (file : Path) (c : Console) : (readSystem file c).2 = c := by
  have hread : Keeps (· = c) (Console.readText file) := by
    unfold Console.readText
    refine Keeps.bind (fun _ => id) fun c' => ?_
    split
    · exact fun _ => id
    · exact fun _ => id
  have hkeeps : Keeps (· = c) (readSystem file) := by
    unfold readSystem
    refine hread.bind fun text => ?_
    split
    · exact fun _ => id
    · exact fun _ => id
  exact hkeeps c rfl

theorem nameFor_eq (h : file.stem? = some name) : nameFor file = name := by
  rw [nameFor, h, Option.getD_some]

/-- The calls of tools that a minimisation makes. Without a system there are none. -/
def minimizeCalls (file : Path) (setup : Setup) (strategy : Strategy) (c : Console) :
    List ToolCall :=
  match (readSystem file c).1 with
  | .ok s => (setup.installation.tools.recording.checkAndMinimize setup.keepFiles s (nameFor file)
      strategy (Session.recorded ⟨c.bench, .within setup.dir⟩)).2.record
  | .error _ => []

theorem minimizeCalls_of_readText {setup : Setup} {strategy : Strategy} {c : Console}
    {text : String} {s : EqSystem} (hfile : c.bench.disk.readText file = .ok text)
    (hread : EqSystem.read text = .ok s) : minimizeCalls file setup strategy c =
      (setup.installation.tools.recording.checkAndMinimize setup.keepFiles s (nameFor file)
        strategy (Session.recorded ⟨c.bench, .within setup.dir⟩)).2.record := by
  rw [minimizeCalls, readSystem_eq hfile hread]

theorem spares_runMinimize {setup : Setup} (h : file.stem? = some name) {strategy : Strategy}
    {c : Console}
    (hconfined : ∀ call ∈ minimizeCalls file setup strategy c, setup.installation.ConfinedAt call) :
    c.bench.disk.Spares file (runMinimize file setup strategy c).2.bench.disk := by
  have hread := readSystem_console file c
  unfold minimizeCalls at hconfined
  unfold runMinimize
  rw [bind_apply]
  rcases hsystem : readSystem file c with ⟨e | s, c'⟩
  · rw [hsystem] at hread
    obtain rfl : c' = c := hread
    exact Disk.spares_refl file _
  · rw [hsystem] at hread hconfined
    obtain rfl : c' = c := hread
    dsimp only at hconfined ⊢
    rw [nameFor_eq h] at hconfined ⊢
    obtain ⟨hspared, -⟩ := setup.installation.tools.spares_checkAndMinimize
      (fun _ hf => Path.apart_checkFiles h setup.dir hf) setup.keepFiles s strategy c'.bench
      fun call hcall => (hconfined call hcall).confines
    have hended := Console.spares_inSession hspared
    rw [bind_apply]
    rcases hsession : Console.inSession setup.dir
      (setup.installation.tools.checkAndMinimize setup.keepFiles s name strategy) c' with
      ⟨e | result, c''⟩
    · rw [hsession] at hended
      exact hended
    · rw [hsession] at hended
      cases result with
      | none => exact hended
      | some small => exact hended

end CommandLine

/-- The file that a minimisation is named after is not among its own files, and no answer of a
solver is collected there, in whatever directory. With any tools, on any disk: all that happens
concerns those files, one thing after the other; the file is not registered for removal, and no tool
is given it as an output. So if the tools leave things at their output in these calls, or where
their answer belongs, every call finds the file as it was, and it still is in the end, whichever
calls fail. The same holds of the whole command, if the installed programs are as confined in its
calls. -/
theorem minimization_spares_input {file : Path} {name : String} (h : file.stem? = some name) :
    CommandLine.nameFor file = name ∧
    (∀ dir : Path, Tools.KeepsOff dir file (checkFiles name) ∧
      ∀ {τ : Type} (tools : Tools τ) (keepFiles : Bool) (s : EqSystem) (strategy : Strategy)
        (bench : Bench τ),
        let start : Session τ := ⟨bench, .within dir⟩
        let ended := tools.checkAndMinimize keepFiles s name strategy start
        let calls :=
          (tools.recording.checkAndMinimize keepFiles s name strategy start.recorded).2.record
        (∃ last, Relation.ReflTransGen (tools.Step (checkFiles name)) start last ∧
          (∀ p ∈ last.registry.files, p.Apart file) ∧ ended.2 = last.finish keepFiles) ∧
        (∀ call ∈ calls, ∀ p ∈ call.outputs, p.Apart file) ∧
        ((∀ call ∈ calls, tools.Confines call) → bench.disk.Spares file ended.2.bench.disk ∧
          ∀ call ∈ calls, bench.disk.Spares file call.found)) ∧
    ∀ (setup : CommandLine.Setup) (strategy : Strategy) (c : CommandLine.Console),
      (∀ call ∈ CommandLine.minimizeCalls file setup strategy c,
        setup.installation.ConfinedAt call) →
        c.bench.disk.Spares file (CommandLine.runMinimize file setup strategy c).2.bench.disk := by
  have hoff (dir : Path) : Tools.KeepsOff dir file (checkFiles name) :=
    fun f hf => Path.apart_checkFiles h dir hf
  refine ⟨CommandLine.nameFor_eq h, fun dir => ⟨hoff dir, ?_⟩,
    fun setup strategy c hconfined => CommandLine.spares_runMinimize h hconfined⟩
  intro τ tools keepFiles s strategy bench
  have hspares := tools.spares_checkAndMinimize (hoff dir) keepFiles s strategy bench
  dsimp only at hspares ⊢
  obtain ⟨last, hsteps, hlast⟩ := tools.exists_steps keepFiles s name strategy ⟨bench, .within dir⟩
  have havoids := Tools.avoids_of_steps hsteps (hoff dir) ⟨rfl, nofun⟩
  refine ⟨⟨last, hsteps, havoids.registered, hlast⟩, ?_, hspares⟩
  -- the calls are those of the run with a record, which makes steps of its own
  obtain ⟨last', hsteps', hlast'⟩ := tools.recording.exists_steps keepFiles s name strategy
    (Session.recorded ⟨bench, .within dir⟩)
  rw [hlast', Session.record_finish]
  exact Tools.outputs_apart_of_steps hsteps' (hoff dir) ⟨rfl, nofun⟩ rfl

/-- The answers stay beside the inputs, and that after abstraction is another one. -/
def carelessTools : Tools Unit where
  convert _ output := Bench.change (·.write output "pbes".toUTF8)
  abstract _ output _ := do
    Bench.change (·.write output "pbes".toUTF8)
    return true
  solve input := do
    Bench.change (·.write (Installation.answerPath input) "true.".toUTF8)
    return some (input.text.toList.contains 'a')

theorem carelessTools_confines (call : ToolCall) : carelessTools.Confines call := by
  cases call with
  | convert disk input output result =>
    rintro b rfl
    simp only [carelessTools]
    exact Bench.onlyAt_write output _ b
  | abstract disk input output strategy result =>
    rintro b rfl
    simp only [carelessTools]
    exact Bench.onlyAt_write_bind (fun _ => rfl) output _ b
  | solve disk input result =>
    rintro b rfl
    simp only [carelessTools]
    exact Bench.onlyAt_write_bind (fun _ => rfl) (Installation.answerPath input) _ b

def trueSystem : EqSystem :=
  ⟨[⟨.mu, "X", [], .const true⟩], ⟨"X", []⟩⟩

def script (line : String) : Entry :=
  .file ("#!/bin/sh\n" ++ line ++ "\n").toUTF8 true

/-- The system, the programs, and the files that have been made. -/
def scriptDisk (made : List (String × String)) : Disk where
  entries := made.map (fun (name, text) => (["w", name], .file text.toUTF8 false)) ++
    [(["w"], .directory), (["w", "x.y.txt"], .file trueSystem.text.toUTF8 false),
      (["c"], script ": > \"$2\""), (["a"], script ": > \"$3\""), (["s"], script "echo true")]
  current := []

def scriptTools : Installation :=
  ⟨⟨"/c"⟩, ⟨"/a"⟩, ⟨"/s"⟩, none⟩

/-- What a check of the system has made before its calls of the solver. -/
def scriptFiles : List (String × String) :=
  [("x.y_checkb.pbes", ""), ("x.y_checka.pbes", ""), ("x.y_check.txt", trueSystem.text)]

def scriptCalls : List ToolCall :=
  Tools.testCalls ⟨"w/x.y_check.txt"⟩ ⟨"w/x.y_checka.pbes"⟩ ⟨"w/x.y_checkb.pbes"⟩ .overApprox
    (scriptDisk (scriptFiles.drop 2)) (scriptDisk (scriptFiles.drop 1)) (scriptDisk scriptFiles)
    (scriptDisk scriptFiles) (some true) (some true)

section

set_option maxRecDepth 10000

theorem scriptTools_confinedAt : ∀ call ∈ scriptCalls, scriptTools.ConfinedAt call := by
  decide +kernel

/-- The answer comes to a file beside the input and is taken from there. -/
theorem scriptTools_solve : ∀ part ∈ ["a", "b"],
    Leads (scriptTools.tools.solve ⟨"w/x.y_check" ++ part ++ ".pbes"⟩) (scriptDisk scriptFiles)
      (some true) (scriptDisk scriptFiles) := by
  let path (part : String) := Installation.answerPath ⟨"w/x.y_check" ++ part ++ ".pbes"⟩
  let printed (part text : String) : Disk :=
    scriptDisk (("x.y_check" ++ part ++ ".answer", text) :: scriptFiles)
  have hmake : ∀ part ∈ ["a", "b"],
      (scriptDisk scriptFiles).writeText (path part) "" = .ok (printed part "") := by decide +kernel
  have hplace : ∀ part ∈ ["a", "b"],
      (printed part "").locate (path part) = .ok ["w", "x.y_check" ++ part ++ ".answer"] := by
    decide +kernel
  have hrun : ∀ part ∈ ["a", "b"], Shell.runTool? (printed part "") "/s"
      ["w/x.y_check" ++ part ++ ".pbes"] (.file ["w", "x.y_check" ++ part ++ ".answer"]) none =
        some (.exited 0, printed part "true\n") := by decide +kernel
  have hread : ∀ part ∈ ["a", "b"],
      (printed part "true\n").find (path part) = .ok (.file "true\n".toUTF8 false) := by
    decide +kernel
  have hremove : ∀ part ∈ ["a", "b"],
      (printed part "true\n").remove (path part) = .ok (scriptDisk scriptFiles) := by decide +kernel
  have hanswer : readAnswer? "true\n" = some true := by decide
  intro part hpart
  rw [← hanswer]
  exact Installation.leads_solve (hmake part hpart) (hplace part hpart) (hrun part hpart) rfl
    (Disk.readText_of_find (hread part hpart)) (hremove part hpart)

theorem scriptTools_calls (keepFiles : Bool) :
    CommandLine.minimizeCalls ⟨"w/x.y.txt"⟩ ⟨⟨"w"⟩, keepFiles, scriptTools⟩ .overApprox
      ⟨⟨scriptDisk [], [], ()⟩, ""⟩ = scriptCalls := by
  have hfile : (scriptDisk []).readText ⟨"w/x.y.txt"⟩ = .ok trueSystem.text :=
    Disk.readText_of_find (x := false) (by decide +kernel)
  have hreadable : trueSystem.Readable := ⟨by decide, by decide⟩
  have hname : CommandLine.nameFor ⟨"w/x.y.txt"⟩ = "x.y" := by decide
  have hsource : Path.join ⟨"w"⟩ ⟨sourceName ("x.y" ++ "_check")⟩ = ⟨"w/x.y_check.txt"⟩ := by decide
  have hconcrete : Path.join ⟨"w"⟩ ⟨concreteName ("x.y" ++ "_check")⟩ = ⟨"w/x.y_checka.pbes"⟩ := by
    decide
  have habstracted : Path.join ⟨"w"⟩ ⟨abstractedName ("x.y" ++ "_check")⟩ =
      ⟨"w/x.y_checkb.pbes"⟩ := by decide
  rw [CommandLine.minimizeCalls_of_readText hfile hreadable.read, hname]
  have hwrite : (scriptDisk []).writeText ⟨"w/x.y_check.txt"⟩ trueSystem.text =
      .ok (scriptDisk (scriptFiles.drop 2)) := by decide +kernel
  have hconvert : Leads (scriptTools.tools.convert ⟨"w/x.y_check.txt"⟩ ⟨"w/x.y_checka.pbes"⟩)
      (scriptDisk (scriptFiles.drop 2)) () (scriptDisk (scriptFiles.drop 1)) :=
    Installation.leads_convert (by decide +kernel) rfl
  have habstract : Leads (scriptTools.tools.abstract ⟨"w/x.y_checka.pbes"⟩ ⟨"w/x.y_checkb.pbes"⟩
      .overApprox) (scriptDisk (scriptFiles.drop 1)) true (scriptDisk scriptFiles) :=
    Installation.leads_abstract (by decide +kernel) rfl
  exact Tools.record_checkAndMinimize_of_leads hsource hconcrete habstracted hwrite hconvert
    habstract (scriptTools_solve "a" (by decide)) (scriptTools_solve "b" (by decide)) rfl keepFiles

end

/-- The file has two full stops in its name and lies in the directory of the check, which goes on to
a search. It is spared as well by the command with installed programs that write and print. -/
theorem carelessTools_spare_input :
    let file : Path := ⟨"w/x.y.txt"⟩
    let room : Bench Unit :=
      ⟨⟨[(["w"], .directory), (["w", "x.y.txt"], .file "init".toUTF8 false)], []⟩, [], ()⟩
    let c : CommandLine.Console := ⟨⟨scriptDisk [], [], ()⟩, ""⟩
    file.stem? = some "x.y" ∧ (∀ call, carelessTools.Confines call) ∧
      (carelessTools.test trueSystem "x.y_check" .overApprox ⟨room, .within ⟨"w"⟩⟩).1 =
        .ok (.mismatch true false) ∧
      ∀ keepFiles, (carelessTools.checkAndMinimize keepFiles trueSystem "x.y" .overApprox
          ⟨room, .within ⟨"w"⟩⟩).2.bench.disk.readText file = .ok "init" ∧
        let setup : CommandLine.Setup := ⟨⟨"w"⟩, keepFiles, scriptTools⟩
        let calls := CommandLine.minimizeCalls file setup .overApprox c
        calls.length = 4 ∧ (∀ call ∈ calls, scriptTools.ConfinedAt call) ∧
          (CommandLine.runMinimize file setup .overApprox c).2.bench.disk.readText file =
            .ok trueSystem.text := by
  intro file room c
  have hstem : file.stem? = some "x.y" := by decide
  have hfile : room.disk.readText file = .ok "init" :=
    Disk.readText_of_find (x := false) (by decide +kernel)
  have hfile' : (scriptDisk []).readText file = .ok trueSystem.text :=
    Disk.readText_of_find (x := false) (by decide +kernel)
  have htest : (carelessTools.test trueSystem "x.y_check" .overApprox
      ⟨room, .within ⟨"w"⟩⟩).1 = .ok (.mismatch true false) := by decide +kernel
  obtain ⟨-, hchecks, hcommand⟩ := minimization_spares_input hstem
  obtain ⟨-, hkept⟩ := hchecks ⟨"w"⟩
  refine ⟨hstem, carelessTools_confines, htest, fun keepFiles => ⟨?_, ?_⟩⟩
  · have hspared := ((hkept carelessTools keepFiles trueSystem .overApprox room).2.2
      fun call _ => carelessTools_confines call).1
    exact hspared.readText hfile
  · have hcalls := scriptTools_calls keepFiles
    have hconfined := hcalls.symm ▸ scriptTools_confinedAt
    have hspared := hcommand ⟨⟨"w"⟩, keepFiles, scriptTools⟩ .overApprox c hconfined
    exact ⟨congrArg List.length hcalls, hconfined, hspared.readText hfile'⟩

end PbesLab

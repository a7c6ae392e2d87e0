import PbesLab.Proofs.Trial.Action
import Mathlib.Logic.Relation

namespace PbesLab

open PbesLab.Action

variable {τ : Type}

def testFiles (name : String) : List String :=
  [sourceName name, concreteName name, abstractedName name]

/-- Those of the tests of a search, and that of its result. -/
def searchFiles (name : String) : List String :=
  testFiles (name ++ "_minimize") ++ [name ++ "_minimized.txt"]

def checkFiles (name : String) : List String :=
  testFiles (name ++ "_check") ++ searchFiles name

def searchEndings : List String :=
  ["_minimize.txt", "_minimizea.pbes", "_minimizeb.pbes", "_minimized.txt"]

theorem searchFiles_eq (name : String) : searchFiles name = searchEndings.map (name ++ ·) := by
  simp only [searchFiles, testFiles, sourceName, concreteName, abstractedName, String.append_assoc]
  rfl

namespace Tools

variable {tools : Tools τ} {files : List String} {name : String} {strategy : Strategy}

/-- A session goes on by one thing, which concerns files of these names only. -/
inductive Step (tools : Tools τ) (files : List String) (st : Session τ) : Session τ → Prop
  | register {file} (hfile : file ∈ files) :
      Step tools files st ⟨st.bench, st.registry.add file⟩
  | write {file text disk} (hfile : file ∈ files)
      (written : st.bench.disk.writeText (st.registry.pathOf file) text = .ok disk) :
      Step tools files st ⟨{ st.bench with disk }, st.registry⟩
  | convert {input output} (hinput : input ∈ files) (houtput : output ∈ files) :
      Step tools files st ⟨(tools.convert (st.registry.pathOf input) (st.registry.pathOf output)
        st.bench).2, st.registry⟩
  | abstract {input output} (strategy : Strategy) (hinput : input ∈ files)
      (houtput : output ∈ files) :
      Step tools files st ⟨(tools.abstract (st.registry.pathOf input) (st.registry.pathOf output)
        strategy st.bench).2, st.registry⟩
  | solve {input} (hinput : input ∈ files) :
      Step tools files st ⟨(tools.solve (st.registry.pathOf input) st.bench).2, st.registry⟩
  | tell (line : LogLine) : Step tools files st (st.tell line)

section

variable {P : Session τ → Prop}

theorem keeps_compare (hP : ∀ st st', tools.Step files st st' → P st → P st')
    (hfiles : testFiles name ⊆ files) (r : Registry) :
    Keeps (fun b => P ⟨b, r⟩) (tools.compare name strategy (r.pathOf (sourceName name))
      (r.pathOf (concreteName name)) (r.pathOf (abstractedName name))) := by
  have hsource : sourceName name ∈ files := hfiles (by simp [testFiles])
  have hconcrete : concreteName name ∈ files := hfiles (by simp [testFiles])
  have habstracted : abstractedName name ∈ files := hfiles (by simp [testFiles])
  unfold compare judge
  refine Keeps.bind (fun b => hP ⟨b, r⟩ _ (.convert hsource hconcrete)) fun _ => ?_
  refine Keeps.bind (fun b => hP ⟨b, r⟩ _ (.abstract strategy hconcrete habstracted)) fun done => ?_
  refine Keeps.bind (fun b => hP ⟨b, r⟩ _ (.solve hconcrete)) fun before => ?_
  refine Keeps.bind ?_ fun after =>
    Keeps.bind (fun b => hP ⟨b, r⟩ _ (.tell _)) fun _ => keeps_pure _ _
  split
  · exact fun b => hP ⟨b, r⟩ _ (.solve habstracted)
  · exact keeps_pure _ none

theorem keeps_test (hP : ∀ st st', tools.Step files st st' → P st → P st')
    (hfiles : testFiles name ⊆ files) (s : EqSystem) :
    Keeps P (tools.test s name strategy) := by
  have hsource : sourceName name ∈ files := hfiles (by simp [testFiles])
  have hconcrete : concreteName name ∈ files := hfiles (by simp [testFiles])
  have habstracted : abstractedName name ∈ files := hfiles (by simp [testFiles])
  intro st hst
  let registered : Session τ := ⟨st.bench, st.registry.add (sourceName name)⟩
  have hregistered : P registered := hP st registered (.register hsource) hst
  apply Ends.final
  apply ends_test
  · intro disk hwrite
    have hwrite' : registered.bench.disk.writeText (registered.registry.pathOf (sourceName name))
        s.text = .ok disk := by rwa [Registry.pathOf_add]
    let written : Session τ := ⟨{ st.bench with disk }, registered.registry⟩
    have hwritten : P written := hP registered written (.write hsource hwrite') hregistered
    have hready := hP _ _ (.register habstracted) (hP _ _ (.register hconcrete) hwritten)
    have hcompare : Keeps _ (tools.compare name strategy _ _ _) :=
      keeps_compare hP hfiles (st.registry.addTest name)
    have hend := hcompare _ hready
    simp only [Registry.addTest, Registry.pathOf_add] at hend
    exact ⟨fun _ _ => hend, fun _ _ => hend⟩
  · exact fun _ _ => hregistered

theorem keeps_minimize (hP : ∀ st st', tools.Step files st st' → P st → P st')
    (hfiles : searchFiles name ⊆ files) (s : EqSystem) :
    Keeps P (tools.minimize s name strategy) := by
  intro st hst
  have hrun : P (Search.run (tools.probe name strategy) (Search.start name s) st).2.2 :=
    keeps_run (keeps_test hP (List.append_subset.mp hfiles).1) (fun st line => hP st _ (.tell line))
      _ hst
  have hplace := (Search.run_place (tools.probe name strategy) (Search.start name s) st).1
  unfold minimize
  rcases hend : Search.run (tools.probe name strategy) (Search.start name s) st with ⟨r, m, st'⟩
  rw [hend] at hrun hplace
  cases r with
  | error e => exact hrun
  | ok small =>
    have hname : m.name = name := hplace
    have htarget : m.resultName ∈ files := by
      rw [Search.resultName, hname]
      exact hfiles (by simp [searchFiles])
    apply Ends.final
    apply ends_bind
    apply Session.ends_onBench
    unfold Search.write
    apply ends_bind
    apply Bench.ends_change
    · intro disk hwrite
      let stored : Session τ := ⟨{ st'.bench with disk }, st'.registry⟩
      have hstored : P stored := hP st' stored (.write htarget hwrite) hrun
      exact ends_bind (ends_ok (ends_pure (ends_pure (hP stored _ (.tell _) hstored))))
    · exact fun _ _ => hrun

theorem keeps_check (hP : ∀ st st', tools.Step files st st' → P st → P st')
    (hfiles : checkFiles name ⊆ files) (s : EqSystem) :
    Keeps P (tools.check s name strategy) := by
  obtain ⟨htest, hsearch⟩ := List.append_subset.mp hfiles
  unfold check
  refine Keeps.bind (keeps_test hP htest s) fun outcome => ?_
  refine Keeps.bind (fun st => hP st _ (.tell _)) fun _ => ?_
  split
  · exact keeps_pure P none
  · exact Keeps.bind (keeps_minimize hP hsearch s) fun small => keeps_pure P (some small)

end

/-- A check with its search is one step after the other, and then its end. -/
theorem exists_steps (tools : Tools τ) (keepFiles : Bool) (s : EqSystem) (name : String)
    (strategy : Strategy) (start : Session τ) :
    ∃ last, Relation.ReflTransGen (tools.Step (checkFiles name)) start last ∧
      (tools.checkAndMinimize keepFiles s name strategy start).2 = last.finish keepFiles := by
  rw [checkAndMinimize_eq, Session.finishing_apply]
  refine ⟨_, ?_, rfl⟩
  exact keeps_check (fun _ _ hstep hsteps => hsteps.tail hstep) (List.Subset.refl _) s start .refl

end Tools

end PbesLab

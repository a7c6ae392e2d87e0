import PbesLab.Proofs.Shrink.WellFormed
import PbesLab.Proofs.Trial.Comparison

namespace PbesLab

open PbesLab.Action

variable {τ : Type}

/-- For tools that go by the contents of files, two tests of one system with one strategy come to
the same, the same outcome or the same error, in any two sessions and under any two names with room
for the files, whatever earlier tests have left there. What is solved is what the test has made
itself: without a result of the abstraction nothing is solved at its path, whatever may lie
there. -/
theorem tests_ignore_leftovers {tools : Tools τ} {f : FileResults Failure}
    (hf : tools.Follows id Disk.OnlyAt f) (s : EqSystem) (strategy : Strategy)
    {st st' : Session τ} {name name' : String} (hst : st.Admits name)
    (hst' : st'.Admits name') :
    (tools.test s name strategy st).1 = (tools.test s name' strategy st').1 ∧
      let done := tools.recording.test s name strategy st.recorded
      let concrete := st.registry.pathOf (concreteName name)
      let abstracted := st.registry.pathOf (abstractedName name)
      (done.1, done.2.forget) = tools.test s name strategy st ∧
      done.1 = f.outcome s.text.toUTF8 strategy ∧
      List.Forall₂ ToolCall.Solves (f.solved (concrete, abstracted) s.text.toUTF8 strategy)
        (done.2.record.filter ToolCall.isSolve) ∧
      ∀ written, f.convert s.text.toUTF8 = .ok written → f.abstract strategy written = .ok none →
        ∀ disk result, ToolCall.solve disk abstracted result ∉ done.2.record := by
  have hforget := tools.over_test s name strategy st.recorded
  have hplain := hf.test_eq_outcome Disk.isFrame_onlyAt s strategy hst
  have hplain' := hf.test_eq_outcome Disk.isFrame_onlyAt s strategy hst'
  have hroom : st.recorded.Admits name := hst
  have hresult := hf.recording.test_eq_outcome Disk.isFrame_onlyAt s strategy hroom
  have hend := hf.ends_test_recording Disk.isFrame_onlyAt s strategy hroom
  obtain ⟨calls, hrecord, hcalls⟩ := (hend.imp (fun _ _ h => h.2.2.2) fun _ _ h => h.2).final
  have hrecord' : (tools.recording.test s name strategy st.recorded).2.record = calls := hrecord
  refine ⟨hplain.trans hplain'.symm, hforget.symm, hresult, ?_, ?_⟩
  · rw [hrecord']
    exact hcalls
  · intro written hconvert habstract disk result
    obtain ⟨-, l₂, l₃, -, hl₂, hl₃, -, h₂₃, -⟩ := hst.places
    rw [hrecord']
    apply ToolCall.solve_not_mem hcalls
    rw [(FileResults.outcome_eq hconvert habstract).2, FileResults.judged_none]
    -- the two paths lead to different places
    intro content hcontent hpath
    obtain rfl := List.mem_singleton.mp hcontent
    have hsame : st.bench.disk.locate (st.registry.pathOf (concreteName name)) = .ok l₃ := by
      rw [← hl₃.locate]
      exact congrArg _ hpath
    exact h₂₃ (Except.ok.inj (hl₂.locate.symm.trans hsame))

/-- Takes texts as they are, answers yes on less than sixty bytes, and never has an abstraction. -/
def fruitlessResults : FileResults Failure where
  convert content := .ok content
  abstract _ _ := .ok none
  solve content := .ok (some (content.size < 60))

theorem hidingSystem_ignores_leftovers :
    let tools := fruitlessResults.tools .empty
    let fresh : Session Unit := ⟨⟨⟨[(["w"], .directory)], []⟩, [], ()⟩, .within ⟨"w"⟩⟩
    let used : Session Unit := ⟨⟨⟨[(["w"], .directory), (["w", "ya.pbes"], .file .empty false),
      (["w", "yb.pbes"], .file .empty false)], []⟩, [], ()⟩, ⟨⟨"w"⟩, [⟨"w/yb.pbes"⟩]⟩⟩
    tools.Follows id Disk.OnlyAt fruitlessResults ∧ used.Admits "y" ∧ fresh.Admits "x" ∧
      (tools.test hidingSystem "y" .overApprox used).1 =
        (tools.test hidingSystem "x" .overApprox fresh).1 ∧
      (tools.recording.test hidingSystem "y" .overApprox used.recorded).1 = .ok .inconclusive ∧
      ∀ disk result, ToolCall.solve disk ⟨"w/yb.pbes"⟩ result ∉
        (tools.recording.test hidingSystem "y" .overApprox used.recorded).2.record := by
  intro tools fresh used
  have hf : tools.Follows id Disk.OnlyAt fruitlessResults :=
    fruitlessResults.follows Disk.isFrame_onlyAt .empty
  have hused : used.Admits "y" := by
    have hwritable : ∀ ending ∈ testEndings, used.bench.disk.writable
        (used.registry.pathOf ("y" ++ ending)) = .ok ["w", "y" ++ ending] := by decide
    have hdevice : ∀ ending ∈ testEndings,
        used.bench.disk.entry? ["w", "y" ++ ending] ≠ some .sink := by decide
    intro ending hending
    exact ⟨_, hwritable ending hending, hdevice ending hending⟩
  have hfresh : fresh.Admits "x" := by
    have hwritable : ∀ ending ∈ testEndings, fresh.bench.disk.writable
        (fresh.registry.pathOf ("x" ++ ending)) = .ok ["w", "x" ++ ending] := by decide
    intro ending hending
    exact ⟨_, hwritable ending hending, nofun⟩
  obtain ⟨hsame, -, houtcome, -, hsolve⟩ :=
    tests_ignore_leftovers hf hidingSystem .overApprox hused hfresh
  have hpath : used.registry.pathOf (abstractedName "y") = ⟨"w/yb.pbes"⟩ := by decide
  rw [hpath] at hsolve
  exact ⟨hf, hused, hfresh, hsame, houtcome, hsolve _ rfl rfl⟩

end PbesLab

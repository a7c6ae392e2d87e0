import PbesLab.Proofs.Shrink.Resumption
import PbesLab.Proofs.Trial.Blocks
import PbesLab.Proofs.Trial.Handover

namespace PbesLab

open PbesLab.Action

variable {τ : Type} {dir : Path}

namespace Course

def Whole (x : Course dir) : Prop :=
  ∃ outcome, x.result = .ok outcome

theorem Disagrees.whole {x : Course dir} (h : x.Disagrees) : x.Whole := by
  obtain ⟨a, b, hmismatch⟩ := (disagrees_iff x).mp h
  exact ⟨_, hmismatch⟩

theorem Answers.whole {name : String} {strategy : Strategy} {x : Course dir} {c : Call Failure}
    (h : x.Answers name strategy c) (hc : ∃ b, c.answer = .ok b) : x.Whole := by
  obtain ⟨b, hb⟩ := hc
  cases hresult : x.result with
  | ok outcome => exact ⟨outcome, hresult⟩
  | error e =>
    rw [(h.breaks e).mpr hresult] at hb
    cases hb

end Course

namespace Tools

variable {tools : Tools τ} {name : String} {wanted : Bool} {begun : Session τ}
  {tests search : List (Course dir)} {x : Course dir}

section

variable {st last : Session (τ × List ToolCall)}

end

end Tools

end PbesLab

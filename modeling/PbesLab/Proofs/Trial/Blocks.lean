import PbesLab.Proofs.Lists
import PbesLab.Proofs.Shrink.Termination
import PbesLab.Proofs.Trial.Iterations
import PbesLab.Proofs.Trial.Recording

namespace PbesLab

open PbesLab.Action

variable {τ α : Type} {dir : Path}

namespace Trial

def source (dir : Path) (t : Trial) : Path :=
  dir.join ⟨sourceName t.name⟩

def concrete (dir : Path) (t : Trial) : Path :=
  dir.join ⟨concreteName t.name⟩

def abstracted (dir : Path) (t : Trial) : Path :=
  dir.join ⟨abstractedName t.name⟩

/-- The calls of a test. After a failure none follows, and the abstraction is solved if and only if
there is one. A system whose text cannot be written is not handed to the tools. -/
inductive Block (dir : Path) (t : Trial) : List ToolCall → Prop
  | unwritten {d : Disk} {e} (fault : d.writeText (t.source dir) t.system.text = .error e)
      (result : t.result = .error (.file e)) : Block dir t []
  | unconverted {d e} (result : t.result = .error e) :
      Block dir t [.convert d (t.source dir) (t.concrete dir) (.error e)]
  | unabstracted {d d' e} (result : t.result = .error e) :
      Block dir t [.convert d (t.source dir) (t.concrete dir) (.ok ()),
        .abstract d' (t.concrete dir) (t.abstracted dir) t.strategy (.error e)]
  | unsolved {d d' d'' done e} (result : t.result = .error e) :
      Block dir t [.convert d (t.source dir) (t.concrete dir) (.ok ()),
        .abstract d' (t.concrete dir) (t.abstracted dir) t.strategy (.ok done),
        .solve d'' (t.concrete dir) (.error e)]
  | halfSolved {d d' d'' d''' before e} (result : t.result = .error e) :
      Block dir t [.convert d (t.source dir) (t.concrete dir) (.ok ()),
        .abstract d' (t.concrete dir) (t.abstracted dir) t.strategy (.ok true),
        .solve d'' (t.concrete dir) (.ok before), .solve d''' (t.abstracted dir) (.error e)]
  | single {d d' d'' before} (result : t.result = .ok (.ofAnswers before none)) :
      Block dir t [.convert d (t.source dir) (t.concrete dir) (.ok ()),
        .abstract d' (t.concrete dir) (t.abstracted dir) t.strategy (.ok false),
        .solve d'' (t.concrete dir) (.ok before)]
  | double {d d' d'' d''' before after} (result : t.result = .ok (.ofAnswers before after)) :
      Block dir t [.convert d (t.source dir) (t.concrete dir) (.ok ()),
        .abstract d' (t.concrete dir) (t.abstracted dir) t.strategy (.ok true),
        .solve d'' (t.concrete dir) (.ok before), .solve d''' (t.abstracted dir) (.ok after)]

end Trial

structure Course (dir : Path) extends Trial where
  calls : List ToolCall
  block : toTrial.Block dir calls

namespace Course

/-- The calls end with two answers, and these are different. -/
def Disagrees (x : Course dir) : Prop :=
  ∃ d d' a b,
    [.solve d (x.concrete dir) (.ok (some a)), .solve d' (x.abstracted dir) (.ok (some b))]
      <:+ x.calls ∧ a ≠ b

theorem disagrees_iff (x : Course dir) :
    x.Disagrees ↔ ∃ a b, x.result = .ok (.mismatch a b) := by
  obtain ⟨t, calls, block⟩ := x
  unfold Disagrees
  cases block with
  | unwritten fault result => simp [result]
  | unconverted result | unabstracted result | unsolved result | halfSolved result =>
    simp [result, List.suffix_cons_iff]
  | @single _ _ _ before result =>
    cases before <;> simp [result, List.suffix_cons_iff, Outcome.ofAnswers]
  | @double _ _ _ _ before after result =>
    rcases before with - | a
    · simp [result, List.suffix_cons_iff, Outcome.ofAnswers]
    · rcases after with - | b
      · simp [result, List.suffix_cons_iff, Outcome.ofAnswers]
      · by_cases hab : a = b
        · refine iff_of_false ?_ (by simp [result, Outcome.ofAnswers, hab])
          rintro ⟨d, d', a', b', hends, hne⟩
          obtain ⟨⟨-, rfl⟩, -, rfl⟩ : (d = _ ∧ a' = a) ∧ d' = _ ∧ b' = b := by
            simpa [List.suffix_cons_iff] using hends
          exact hne hab
        · exact iff_of_true ⟨_, _, a, b, List.suffix_append [_, _] [_, _], hab⟩
            ⟨a, b, by simp [result, Outcome.ofAnswers, hab]⟩

/-- A test of a search, and its call: the name is the one for searches. The search moves on if and
only if the test ends with two different answers. -/
structure Answers (name : String) (strategy : Strategy) (x : Course dir) (c : Call Failure) :
    Prop where
  system : x.system = c.system
  name : x.name = name ++ "_minimize"
  strategy : x.strategy = strategy
  moves : c.fails = true ↔ x.Disagrees
  breaks (e : Failure) : c.answer = .error e ↔ x.result = .error e

end Course

namespace Tools

variable (tools : Tools τ)

end Tools

/-- Between the two sessions there have been these tests. -/
structure Session.Adds (st : Session (τ × List ToolCall)) (xs : List (Course dir))
    (st' : Session (τ × List ToolCall)) : Prop where
  record : st'.record = st.record ++ xs.flatMap Course.calls
  dir : st'.registry.dir = dir

namespace Session

variable {st st' st'' : Session (τ × List ToolCall)} {xs ys : List (Course dir)}

theorem Adds.tell (h : st.Adds xs st') (line : LogLine) : st.Adds xs (st'.tell line) :=
  ⟨h.record, h.dir⟩

theorem Adds.append (h : st.Adds xs st') (h' : st'.Adds ys st'') : st.Adds (xs ++ ys) st'' := by
  refine ⟨?_, h'.dir⟩
  rw [h'.record, h.record, List.flatMap_append, List.append_assoc]

end Session

namespace Tools

open Session

variable (tools : Tools τ)

end Tools

end PbesLab

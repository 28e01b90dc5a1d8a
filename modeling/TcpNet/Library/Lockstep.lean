import TcpNet.Library.Transition
import Mathlib.Data.List.Forall2

namespace Transition

variable {S T L E F : Type}

/-- Two machines that start in related states and read the same inputs. They go on only
    together. -/
def Machine.lockstep (M : Machine S L E) (N : Machine T L F) (R : S → T → Prop) :
    Machine (S × T) L (List E × List F) where
  init s := M.init s.1 ∧ N.init s.2 ∧ R s.1 s.2
  step s l := do
    let (s₁, es) ← M.step s.1 l
    let (s₂, fs) ← N.step s.2 l
    return ((s₁, s₂), [(es, fs)])

variable {M : Machine S L E} {N : Machine T L F} {R : S → T → Prop} {s s' : S × T} {l : L}
  {es : List E} {fs : List F}

theorem Machine.lockstep_step (h : M.step s.1 l = .ok (s'.1, es))
    (h' : N.step s.2 l = .ok (s'.2, fs)) :
    (M.lockstep N R).step s l = .ok (s', [(es, fs)]) := by
  simp only [Machine.lockstep, h, h', ok_bind]
  rfl

end Transition

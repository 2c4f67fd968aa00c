import Mathlib

namespace Latkit.Emission

/-! Runs of a state machine. -/

section
variable {σ ε : Type} (step : σ → ε → σ)

def run (s : σ) (es : List ε) : σ := es.foldl step s

theorem run_append (s : σ) (es es' : List ε) : run step s (es ++ es') = run step (run step s es) es' :=
  List.foldl_append

end

end Latkit.Emission

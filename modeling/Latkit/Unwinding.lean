import Mathlib

/-! Two runs of a machine that an observer cannot tell apart. -/

namespace Unwinding

variable {σ ε ν : Type} (step : σ → ε → σ) (view : σ → ν) (Alike : σ → ε → ε → Prop)

/-- The two event lists are alike, event by event, in the states of the first run. -/
def Matched : σ → List ε → List ε → Prop
  | _, [], [] => True
  | s, e :: es, f :: fs => Alike s e f ∧ Matched (step s e) es fs
  | _, _, _ => False

/-- States that look the same react to an event the same way, and events that are alike do. -/
structure Unwinds : Prop where
  consistent : ∀ s t e, view s = view t → Alike s e e → view (step s e) = view (step t e)
  respects : ∀ s e f, Alike s e f → view (step s e) = view (step s f)
  right : ∀ s e f, Alike s e f → Alike s f f

variable {step view Alike}

theorem Unwinds.step_view (h : Unwinds step view Alike) (hv : view s = view t) (ha : Alike s e f) :
    view (step s e) = view (step t f) :=
  (h.respects s e f ha).trans (h.consistent s t f hv (h.right s e f ha))

theorem Unwinds.run_view (h : Unwinds step view Alike) (hv : view s = view t)
    (hm : Matched step Alike s es fs) : view (es.foldl step s) = view (fs.foldl step t) := by
  induction es generalizing s t fs with
  | nil =>
    cases fs with
    | nil => exact hv
    | cons f fs => exact hm.elim
  | cons e es ih =>
    cases fs with
    | nil => exact hm.elim
    | cons f fs => exact ih (t := step t f) (h.step_view hv hm.1) hm.2

end Unwinding

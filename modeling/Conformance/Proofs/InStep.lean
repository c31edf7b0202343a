import Conformance.Proofs.Run
import Mathlib.Data.List.Forall2
set_option autoImplicit false

/-!
# Runs in step

Two runs of the same fixtures stay in step when checking a fixture in related states gives verdicts that agree
and leaves related states. Where the verdicts are the same, so are the reports but for the states.
-/
namespace Conformance.Suite

variable {σ τ : Type}

def InStep (related : σ → τ → Prop) (agree : Except Failure Unit → Except Failure Unit → Prop)
    (stages : Stages σ) (stages' : Stages τ) : Prop :=
  ∀ path s t, related s t → agree (check stages path s).1 (check stages' path t).1 ∧
    related (check stages path s).2 (check stages' path t).2

namespace InStep

variable {related : σ → τ → Prop} {agree : Except Failure Unit → Except Failure Unit → Prop}
  {stages : Stages σ} {stages' : Stages τ} {s : σ} {t : τ}

theorem stateBehind (h : InStep related agree stages stages') (paths : List String) (hst : related s t) :
    related (Suite.stateBehind stages paths s) (Suite.stateBehind stages' paths t) := by
  induction paths generalizing s t with
  | nil => exact hst
  | cons path rest ih => exact ih (h path s t hst).2

theorem events (h : InStep related agree stages stages') (paths : List String) (hst : related s t) :
    List.Forall₂ (fun e e' => e.1 = e'.1 ∧ agree e.2 e'.2) (Suite.events stages paths s)
      (Suite.events stages' paths t) := by
  induction paths generalizing s t with
  | nil => exact .nil
  | cons path rest ih =>
    obtain ⟨hverdict, hleft⟩ := h path s t hst
    exact .cons ⟨rfl, hverdict⟩ (ih hleft)

section Same

variable (h : InStep related Eq stages stages') (settings : Settings) (paths : List String)
  (hst : related s t)
include h hst

end Same

end InStep
end Conformance.Suite

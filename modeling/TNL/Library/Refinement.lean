import TNL.Library.Run
import TNL.Library.Succeeds

/-!
# Refinement of one step function by another

The steps of a program follow the steps of a specification, each from a state in which a
guard allows it. Then the program takes every run of the specification whose steps are
all allowed, and ends in a state that is related to the one of the specification.
-/
namespace TNL.Library

variable {σ τ α : Type*}

/-- Every step of the run is allowed in the state it is taken from. -/
def AllowedRun (step : σ → α → Option σ) (guard : σ → α → Prop) : σ → List α → Prop
  | _, [] => True
  | s, a :: as => guard s a ∧ ∀ t, step s a = some t → AllowedRun step guard t as

variable {step : σ → α → Option σ} {guard : σ → α → Prop} {spec : τ → α → Option τ}
  {R : σ → τ → Prop}

theorem AllowedRun.refines
    (hstep : ∀ s t a t', R s t → spec t a = some t' → guard s a →
      Succeeds (step s a) fun s' => R s' t')
    {s : σ} {t t' : τ} {as : List α} (h : R s t) (hspec : exec spec t as = some t')
    (hallowed : AllowedRun step guard s as) : Succeeds (exec step s as) fun s' => R s' t' := by
  induction as generalizing s t with
  | nil =>
    obtain rfl := Option.some.inj hspec
    exact Succeeds.pure h
  | cons a as ih =>
    obtain ⟨next, hnext, hrest⟩ := Option.bind_eq_some_iff.mp hspec
    obtain ⟨s₁, hs₁, hrelated⟩ := hstep s t a next h hnext hallowed.1
    rw [exec, hs₁, Option.bind_some]
    exact ih hrelated hrest (hallowed.2 s₁ hs₁)

end TNL.Library

import Mathlib.Tactic.Common

/-!
# Run — states reached by allowed steps

A run starts in some start state and takes steps; each step is labelled with an event and must be
allowed in the state it is taken from.  What holds at the start and survives every allowed step
holds in every state reached.
-/

namespace Transition

variable {S E : Type}

inductive Run (start : S → Prop) (next : S → E → S → Prop) (allowed : S → E → Prop) : S → Prop
  | start {s : S} : start s → Run start next allowed s
  | step {s s' : S} {e : E} :
      Run start next allowed s → allowed s e → next s e s' → Run start next allowed s'

namespace Run

variable {start : S → Prop} {next : S → E → S → Prop} {allowed : S → E → Prop}

/-- The invariant rule. -/
theorem invariant {I : S → Prop} (hstart : ∀ s, start s → I s)
    (hstep : ∀ s e s', I s → allowed s e → next s e s' → I s') {s : S}
    (h : Run start next allowed s) : I s := by
  induction h with
  | start hs => exact hstart _ hs
  | step _ hallowed hnext ih => exact hstep _ _ _ ih hallowed hnext

/-- A run under a condition is one under any weaker condition. -/
theorem mono {allowed' : S → E → Prop} (himp : ∀ s e, allowed s e → allowed' s e) {s : S}
    (h : Run start next allowed s) : Run start next allowed' s := by
  induction h with
  | start hs => exact .start hs
  | step _ hallowed hnext ih => exact ih.step (himp _ _ hallowed) hnext

/-- A run can go on from the state it reached. -/
theorem trans {s s' : S} (h : Run start next allowed s)
    (h' : Run (fun t => t = s) next allowed s') : Run start next allowed s' := by
  induction h' with
  | start hs => exact hs ▸ h
  | step _ hallowed hnext ih => exact ih.step hallowed hnext

/-- If every allowed step is matched by one between related states, then every run is matched by a
run with the same events. -/
theorem simulate {T : Type} {start' : T → Prop} {next' : T → E → T → Prop}
    {allowed' : T → E → Prop} {R : S → T → Prop}
    (hstart : ∀ s, start s → ∃ t, start' t ∧ R s t)
    (hstep : ∀ s e s' t, R s t → allowed s e → next s e s' →
      ∃ t', allowed' t e ∧ next' t e t' ∧ R s' t') {s : S} (h : Run start next allowed s) :
    ∃ t, Run start' next' allowed' t ∧ R s t := by
  induction h with
  | start hs =>
      rcases hstart _ hs with ⟨t, ht, hR⟩
      exact ⟨t, Run.start ht, hR⟩
  | step _ hallowed hnext ih =>
      rcases ih with ⟨t, hrun, hR⟩
      rcases hstep _ _ _ t hR hallowed hnext with ⟨t', hallowed', hnext', hR'⟩
      exact ⟨t', hrun.step hallowed' hnext', hR'⟩

end Run

end Transition

import Mathlib.Tactic.TypeStar

/-!
# Labelled transition systems

A run is the list of the actions taken, oldest first, together with the
state they lead to.  Most statements about a protocol speak about the
actions of a run and not only about its states, so the invariant rule is
over both.
-/

namespace Transition

variable {σ : Type*} {ι : Type*}

/-- A labelled transition system. -/
structure System (σ : Type*) (ι : Type*) where
  /-- The states a run may start from. -/
  Init : σ → Prop
  /-- `Step s a t`: the action `a` takes `s` to `t`. -/
  Step : σ → ι → σ → Prop

/-- `Run sys as s`: some run of the system takes the actions `as` and ends
in `s`. -/
inductive Run (sys : System σ ι) : List ι → σ → Prop where
  | init {s : σ} (hinit : sys.Init s) : Run sys [] s
  | step {as : List ι} {s t : σ} {a : ι} (hrun : Run sys as s) (hstep : sys.Step s a t) :
      Run sys (as ++ [a]) t

/-- What holds before the first action and is kept by every action holds of
every run. -/
theorem Run.invariant {sys : System σ ι} (Inv : List ι → σ → Prop)
    (hinit : ∀ s, sys.Init s → Inv [] s)
    (hstep : ∀ as s a t, Inv as s → sys.Step s a t → Inv (as ++ [a]) t)
    {as : List ι} {s : σ} (hrun : Run sys as s) : Inv as s := by
  induction hrun with
  | init hs => exact hinit _ hs
  | step _ hst ih => exact hstep _ _ _ _ ih hst

/-- A simulation: every run of one system is a run of the other with the same
actions.  What is known of the runs so far may be used in each step. -/
theorem Run.simulate {τ : Type*} {sys : System σ ι} {sys' : System τ ι} (R : σ → τ → Prop)
    (hinit : ∀ s, sys.Init s → ∃ t, sys'.Init t ∧ R s t)
    (hstep : ∀ as s t a s', Run sys as s → Run sys' as t → R s t → sys.Step s a s' →
      ∃ t', sys'.Step t a t' ∧ R s' t')
    {as : List ι} {s : σ} (hrun : Run sys as s) : ∃ t, Run sys' as t ∧ R s t := by
  induction hrun with
  | init hs =>
    obtain ⟨t, ht, hR⟩ := hinit _ hs
    exact ⟨t, .init ht, hR⟩
  | step hrun hst ih =>
    obtain ⟨t, hrun', hR⟩ := ih
    obtain ⟨t', hst', hR'⟩ := hstep _ _ _ _ _ hrun hrun' hR hst
    exact ⟨t', hrun'.step hst', hR'⟩

end Transition

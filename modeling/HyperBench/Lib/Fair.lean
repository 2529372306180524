import HyperBench.Lib.Transition
import Mathlib.Order.Basic

/-!
# Fair executions

An execution goes on for ever, with moments in between at which nothing
happens.  Each action belongs to a process, or to nobody when it is a free
choice of the environment.  In a fair execution a process that can always take
a step takes one.

* `Execution.run` is the run up to some moment, so the invariants of runs hold
  of every state of an execution.
* `LeadsTo` is the progress from one predicate to another.  `Fair.ensures` is
  the rule for one step of one process, and `Fair.descends` the rule for
  several steps of one process with a rank.
* `exists_resting` and `fair_of_rests` build fair executions from runs.
-/

namespace Transition

variable {σ : Type*} {ι : Type*} {π : Type*} {sys : System σ ι}

/-- The states `state` follow one another by the actions `action`.  `none` is
a moment at which nothing happens. -/
def Follows (sys : System σ ι) (state : Nat → σ) (action : Nat → Option ι) : Prop :=
  ∀ n, match action n with
    | none => state (n + 1) = state n
    | some a => sys.Step (state n) a (state (n + 1))

structure Execution (sys : System σ ι) where
  state : Nat → σ
  action : Nat → Option ι
  init : sys.Init (state 0)
  follows : Follows sys state action

/-- The process `p` can take a step. -/
def Enabled (sys : System σ ι) (owner : ι → Option π) (p : π) (s : σ) : Prop :=
  ∃ a t, owner a = some p ∧ sys.Step s a t

/-- A process that can take a step from some moment on takes one. -/
def Fair (owner : ι → Option π) (e : Execution sys) : Prop :=
  ∀ p n, (∀ m, n ≤ m → Enabled sys owner p (e.state m)) →
    ∃ m a, n ≤ m ∧ e.action m = some a ∧ owner a = some p

/-- Whenever `P` holds, `Q` holds then or later. -/
def LeadsTo (e : Execution sys) (P Q : σ → Prop) : Prop :=
  ∀ n, P (e.state n) → ∃ m, n ≤ m ∧ Q (e.state m)

/-! ## Executions and runs -/

namespace Execution

variable (e : Execution sys)

/-- The actions up to a moment. -/
def taken : Nat → List ι
  | 0 => []
  | n + 1 => taken n ++ (e.action n).toList

theorem next (n : Nat) : e.action n = none ∧ e.state (n + 1) = e.state n ∨
    ∃ a, e.action n = some a ∧ sys.Step (e.state n) a (e.state (n + 1)) := by
  have h := e.follows n
  cases ha : e.action n with
  | none =>
    rw [ha] at h
    exact Or.inl ⟨rfl, h⟩
  | some a =>
    rw [ha] at h
    exact Or.inr ⟨a, rfl, h⟩

theorem run (n : Nat) : Run sys (e.taken n) (e.state n) := by
  induction n with
  | zero => exact .init e.init
  | succ n ih =>
    rcases e.next n with ⟨ha, hsame⟩ | ⟨a, ha, hstep⟩
    · rw [taken, ha, hsame, Option.toList_none, List.append_nil]
      exact ih
    · rw [taken, ha]
      exact ih.step hstep

/-- What a step keeps is kept from a moment on. -/
theorem stable {P : σ → Prop} (hstep : ∀ n a, sys.Step (e.state n) a (e.state (n + 1)) →
    P (e.state n) → P (e.state (n + 1))) {n : Nat} (hn : P (e.state n)) {m : Nat} (hm : n ≤ m) :
    P (e.state m) := by
  induction hm with
  | refl => exact hn
  | @step m _ ih =>
    rcases e.next m with ⟨_, hsame⟩ | ⟨a, _, h⟩
    · rw [hsame]
      exact ih
    · exact hstep m a h ih

end Execution

/-! ## Progress -/

namespace LeadsTo

variable {e : Execution sys} {P Q R : σ → Prop}

theorem of_imp (h : ∀ n, P (e.state n) → Q (e.state n)) : LeadsTo e P Q :=
  fun n hn => ⟨n, Nat.le_refl n, h n hn⟩

theorem trans (h : LeadsTo e P Q) (h' : LeadsTo e Q R) : LeadsTo e P R := by
  intro n hn
  obtain ⟨m, hm, hq⟩ := h n hn
  obtain ⟨k, hk, hr⟩ := h' m hq
  exact ⟨k, Nat.le_trans hm hk, hr⟩

theorem or (h : LeadsTo e P R) (h' : LeadsTo e Q R) : LeadsTo e (fun s => P s ∨ Q s) R :=
  fun n hn => hn.elim (h n) (h' n)

/-- A rank that goes down until `Q` holds. -/
theorem rank (r : σ → Nat)
    (h : ∀ k, LeadsTo e (fun s => P s ∧ r s = k) fun s => Q s ∨ P s ∧ r s < k) :
    LeadsTo e P Q := by
  intro n hn
  -- on the rank at the moment `n`
  induction hk : r (e.state n) using Nat.strongRecOn generalizing n with
  | ind k ih =>
    obtain ⟨m, hm, hq | ⟨hp, hlt⟩⟩ := h k n ⟨hn, hk⟩
    · exact ⟨m, hm, hq⟩
    · obtain ⟨m', hm', hq⟩ := ih _ hlt m hp rfl
      exact ⟨m', Nat.le_trans hm hm', hq⟩

end LeadsTo

namespace Fair

variable {e : Execution sys} {owner : ι → Option π} {I P Q : σ → Prop}

/-- One step of the process `p` leads from `P` to `Q`, and no other step does
harm before. -/
theorem ensures (hfair : Fair owner e) (hI : ∀ n, I (e.state n)) (p : π)
    (hkeep : ∀ s a t, I s → P s → sys.Step s a t → P t ∨ Q t)
    (hstep : ∀ s a t, I s → P s → owner a = some p → sys.Step s a t → Q t)
    (henabled : ∀ s, I s → P s → Enabled sys owner p s) : LeadsTo e P Q := by
  intro n hn
  by_contra hnever
  have hq : ∀ m, n ≤ m → ¬ Q (e.state m) := fun m hm hqm => hnever ⟨m, hm, hqm⟩
  have hp : ∀ m, n ≤ m → P (e.state m) := by
    intro m hm
    induction hm with
    | refl => exact hn
    | @step m hm ih =>
      rcases e.next m with ⟨_, hsame⟩ | ⟨a, _, h⟩
      · rw [hsame]
        exact ih
      · exact (hkeep _ a _ (hI m) ih h).resolve_right (hq (m + 1) (Nat.le_succ_of_le hm))
  obtain ⟨m, a, hm, ha, howner⟩ := hfair p n fun m hm => henabled _ (hI m) (hp m hm)
  rcases e.next m with ⟨hnone, _⟩ | ⟨b, hb, h⟩
  · rw [hnone] at ha
    exact absurd ha (by simp)
  · rw [ha, Option.some.injEq] at hb
    subst hb
    exact hq (m + 1) (Nat.le_succ_of_le hm) (hstep _ a _ (hI m) (hp m hm) howner h)

/-- The steps of the process `p` lower a rank until `Q` holds, and the other
steps do not raise it. -/
theorem descends (hfair : Fair owner e) (hI : ∀ n, I (e.state n)) (p : π) (r : σ → Nat)
    (hkeep : ∀ s a t, I s → P s → sys.Step s a t → Q t ∨ P t ∧ r t ≤ r s)
    (hstep : ∀ s a t, I s → P s → owner a = some p → sys.Step s a t → Q t ∨ P t ∧ r t < r s)
    (henabled : ∀ s, I s → P s → Enabled sys owner p s) : LeadsTo e P Q := by
  refine LeadsTo.rank r fun k => ?_
  refine hfair.ensures hI p ?_ ?_ fun s hIs hs => henabled s hIs hs.1
  · intro s a t hIs hs hst
    rcases hkeep s a t hIs hs.1 hst with hq | ⟨hp, hle⟩
    · exact Or.inr (Or.inl hq)
    · rcases Nat.lt_or_eq_of_le (hs.2 ▸ hle) with hlt | heq
      · exact Or.inr (Or.inr ⟨hp, hlt⟩)
      · exact Or.inl ⟨hp, heq⟩
  · intro s a t hIs hs ha hst
    rcases hstep s a t hIs hs.1 ha hst with hq | ⟨hp, hlt⟩
    · exact Or.inl hq
    · exact Or.inr ⟨hp, hs.2 ▸ hlt⟩

end Fair

/-! ## Building executions -/

/-- A run can be continued by what follows its last state. -/
theorem exists_execution {as : List ι} {f : Nat → σ} {g : Nat → Option ι}
    (hrun : Run sys as (f 0)) (hfollows : Follows sys f g) :
    ∃ e : Execution sys,
      ∀ n, e.state (as.length + n) = f n ∧ e.action (as.length + n) = g n := by
  -- the run is taken apart from its end, so its last action goes in front of `f`
  generalize hs : f 0 = s at hrun
  induction hrun generalizing f g with
  | init hinit =>
    refine ⟨⟨f, g, hs ▸ hinit, hfollows⟩, fun n => ?_⟩
    rw [List.length_nil, Nat.zero_add]
    exact ⟨rfl, rfl⟩
  | @step as s t a _ hstep ih =>
    obtain ⟨e, he⟩ := ih (f := fun n => n.casesOn s f) (g := fun n => n.casesOn (some a) g)
      (fun n => by
        cases n with
        | zero =>
          show sys.Step s a (f 0)
          rw [hs]
          exact hstep
        | succ n => exact hfollows n) rfl
    refine ⟨e, fun n => ?_⟩
    rw [List.length_append, List.length_singleton, Nat.add_assoc, Nat.add_comm 1 n]
    exact he (n + 1)

/-- An execution that takes a run, and then a run on from its last state, and
rests behind it. -/
theorem exists_resting {as bs : List ι} {s t : σ} (hrun : Run sys as s)
    (hrest : Run ⟨(· = s), sys.Step⟩ bs t) :
    ∃ e : Execution sys, e.state as.length = s ∧
      ∀ n, as.length + bs.length ≤ n → e.state n = t ∧ e.action n = none := by
  obtain ⟨e₁, he₁⟩ := exists_execution (f := fun _ => t) (g := fun _ => none) hrest fun _ => rfl
  have hstart : e₁.state 0 = s := e₁.init
  have hfollows : Follows sys e₁.state e₁.action := e₁.follows
  obtain ⟨e, he⟩ := exists_execution (hstart ▸ hrun) hfollows
  refine ⟨e, (he 0).1.trans hstart, fun n hn => ?_⟩
  obtain ⟨k, rfl⟩ := Nat.exists_eq_add_of_le hn
  rw [Nat.add_assoc, (he _).1, (he _).2]
  exact he₁ k

/-- An execution that rests where no process can take a step is fair. -/
theorem fair_of_rests {e : Execution sys} {owner : ι → Option π} {N : Nat} {s : σ}
    (hstate : ∀ n, N ≤ n → e.state n = s) (hquiet : ∀ p, ¬ Enabled sys owner p s) :
    Fair owner e := by
  intro p n hn
  have henabled := hn (max n N) (Nat.le_max_left n N)
  rw [hstate _ (Nat.le_max_right n N)] at henabled
  exact absurd henabled (hquiet p)

end Transition

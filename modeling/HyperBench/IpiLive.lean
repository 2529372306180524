import HyperBench.Ipi
import HyperBench.Lib.Fair
import Mathlib.Data.Fintype.Card

/-!
# Calls of `__on_cpu` come back

Progress of the hand-shake between any number of callers and targets, when
every processor is allowed to run and every pending interrupt is delivered
once it can be.  Every processor takes interrupts: there is no interrupt flag
here.  `OnCpu` has the processors that never come to their `sti`.

* `Action.agent` is who takes a step.  To make a call is nobody's duty.
* `critical_leadsTo_idle` follows the holder of the lock round the cycle of
  phases, with one lemma for each phase.
* `some_call_returns` and `calls_drain` are what the callers get.  A single
  caller gets less: `spin_lock` may pass over it for ever.
-/

namespace HyperBench.Ipi

open Transition Function

variable {C : Type*} [DecidableEq C]

/-- The code that a processor runs, and its interrupt controller. -/
inductive Agent (C : Type*) where
  | code (c : C)
  | interrupt (c : C)
  deriving DecidableEq

def Action.agent : Action C → Option (Agent C)
  | .call _ _ => none
  | .deliver c => some (.interrupt c)
  | .testAndSet c | .clear c | .send c | .read c | .unlock c | .store c | .eoi c | .iret c =>
    some (.code c)

/-- The number of steps up to the end of the handler. -/
def Handler.rank : Handler → Nat
  | idle => 0
  | acknowledged => 1
  | stored => 2
  | entered => 3

/-! ## What a step changes -/

section Steps

variable {s t : State C} {a : Action C} {c d : C}

theorem Step.pc_eq (hstep : Step s a t) (ha : a.agent ≠ some (.code c)) (hc : s.pc c ≠ .idle) :
    t.pc c = s.pc c := by
  cases a with
  | call e d =>
    rcases hstep with ⟨_, hidle, _, rfl⟩
    refine update_of_ne ?_ _ _
    rintro rfl
    exact hc hidle
  | testAndSet e =>
    rcases hstep with ⟨_, d, _, rfl⟩
    have hne : c ≠ e := fun he => ha (he ▸ rfl)
    dsimp only
    split
    · rfl
    · exact update_of_ne hne _ _
  | read e =>
    rcases hstep with ⟨_, d, _, rfl⟩
    have hne : c ≠ e := fun he => ha (he ▸ rfl)
    dsimp only
    split
    · exact update_of_ne hne _ _
    · rfl
  | clear e | send e | unlock e =>
    rcases hstep with ⟨_, d, _, rfl⟩
    have hne : c ≠ e := fun he => ha (he ▸ rfl)
    exact update_of_ne hne _ _
  | deliver e =>
    rcases hstep with ⟨_, _, _, rfl⟩
    rfl
  | store e | eoi e | iret e =>
    rcases hstep with ⟨_, rfl⟩
    rfl

theorem Step.handler_eq (hstep : Step s a t) (ha : a.agent ≠ some (.code c))
    (hpending : s.pending c = false ∨ s.handler c ≠ .idle) : t.handler c = s.handler c := by
  cases a with
  | deliver e =>
    rcases hstep with ⟨hidle, hp, _, rfl⟩
    refine update_of_ne ?_ _ _
    rintro rfl
    rcases hpending with h | h
    · exact absurd (h.symm.trans hp) (by simp)
    · exact h hidle
  | store e | eoi e | iret e =>
    rcases hstep with ⟨_, rfl⟩
    have hne : c ≠ e := fun he => ha (he ▸ rfl)
    exact update_of_ne hne _ _
  | call e d =>
    rcases hstep with ⟨_, _, _, rfl⟩
    rfl
  | testAndSet e | clear e | send e | read e | unlock e =>
    rcases hstep with ⟨_, d, _, rfl⟩
    rfl

/-- In the handler the code of a processor goes on with the handler. -/
theorem Step.handler_lt (hstep : Step s a t) (ha : a.agent = some (.code c))
    (hc : s.handler c ≠ .idle) :
    (t.handler c).rank < (s.handler c).rank ∧ t.pc = s.pc ∧ t.pending = s.pending ∧
      t.lock = s.lock ∧ (s.ipiDone = true → t.ipiDone = true) := by
  cases a with
  | call | deliver => simp [Action.agent] at ha
  | testAndSet e | clear e | send e | read e | unlock e =>
    obtain rfl : e = c := by simpa [Action.agent] using ha
    exact absurd hstep.1 hc
  | store e =>
    obtain rfl : e = c := by simpa [Action.agent] using ha
    rcases hstep with ⟨h, rfl⟩
    exact ⟨by simp [h, Handler.rank], rfl, rfl, rfl, fun _ => rfl⟩
  | eoi e | iret e =>
    obtain rfl : e = c := by simpa [Action.agent] using ha
    rcases hstep with ⟨h, rfl⟩
    exact ⟨by simp [h, Handler.rank], rfl, rfl, rfl, id⟩

/-- Outside the handler the code of a processor goes on with its call. -/
theorem Step.own (hstep : Step s a t) (ha : a.agent = some (.code c)) (hc : s.handler c = .idle) :
    (∃ d, s.pc c = .lock d ∧ t.lock = true) ∨
    (∃ d, s.pc c = .clear d ∧ t.pc c = .send d) ∨
    (∃ d, s.pc c = .send d ∧ t.pc c = .wait d) ∨
    (∃ d, s.pc c = .wait d ∧ t.pc c = (if s.ipiDone then .unlock d else .wait d)) ∨
    ∃ d, s.pc c = .unlock d ∧ t.pc c = .idle := by
  cases a with
  | call | deliver => simp [Action.agent] at ha
  | testAndSet e =>
    obtain rfl : e = c := by simpa [Action.agent] using ha
    rcases hstep with ⟨_, d, hpc, rfl⟩
    exact Or.inl ⟨d, hpc, rfl⟩
  | clear e =>
    obtain rfl : e = c := by simpa [Action.agent] using ha
    rcases hstep with ⟨_, d, hpc, rfl⟩
    exact Or.inr (Or.inl ⟨d, hpc, update_self _ _ _⟩)
  | send e =>
    obtain rfl : e = c := by simpa [Action.agent] using ha
    rcases hstep with ⟨_, d, hpc, rfl⟩
    exact Or.inr (Or.inr (Or.inl ⟨d, hpc, update_self _ _ _⟩))
  | read e =>
    obtain rfl : e = c := by simpa [Action.agent] using ha
    rcases hstep with ⟨_, d, hpc, rfl⟩
    refine Or.inr (Or.inr (Or.inr (Or.inl ⟨d, hpc, ?_⟩)))
    cases hdone : s.ipiDone <;> simp [hpc]
  | unlock e =>
    obtain rfl : e = c := by simpa [Action.agent] using ha
    rcases hstep with ⟨_, d, hpc, rfl⟩
    exact Or.inr (Or.inr (Or.inr (Or.inr ⟨d, hpc, update_self _ _ _⟩)))
  | store e | eoi e | iret e =>
    obtain rfl : e = c := by simpa [Action.agent] using ha
    exact absurd (hc.symm.trans hstep.1) (by simp)

/-- A pending interrupt waits for its delivery. -/
theorem Step.pending_cases (hstep : Step s a t) (hd : s.pending d = true) :
    t.pending d = true ∧ (s.handler d = .idle → t.handler d = .idle) ∨
      s.handler d = .idle ∧ t.handler d = .entered ∧ t.pc = s.pc := by
  cases a with
  | deliver e =>
    rcases hstep with ⟨hidle, _, _, rfl⟩
    by_cases hde : d = e
    · subst hde
      exact Or.inr ⟨hidle, update_self _ _ _, rfl⟩
    · simp only [update_of_ne hde]
      exact Or.inl ⟨hd, id⟩
  | send e =>
    rcases hstep with ⟨_, target, _, rfl⟩
    refine Or.inl ⟨?_, id⟩
    by_cases hde : d = target
    · simp [hde]
    · simp [update_of_ne hde, hd]
  | call e target =>
    rcases hstep with ⟨_, _, _, rfl⟩
    exact Or.inl ⟨hd, id⟩
  | testAndSet e | clear e | read e | unlock e =>
    rcases hstep with ⟨_, target, _, rfl⟩
    exact Or.inl ⟨hd, id⟩
  | store e | eoi e | iret e =>
    rcases hstep with ⟨he, rfl⟩
    refine Or.inl ⟨hd, fun hidle => ?_⟩
    have hde : d ≠ e := fun hde => absurd (hidle.symm.trans (hde ▸ he)) (by simp)
    exact (update_of_ne hde _ _).trans hidle

/-- A processor that has something to do can do it. -/
theorem enabled_code (h : s.handler c ≠ .idle ∨ s.pc c ≠ .idle) :
    Enabled (handshake C) Action.agent (.code c) s := by
  cases hh : s.handler c with
  | entered => exact ⟨.store c, _, rfl, hh, rfl⟩
  | stored => exact ⟨.eoi c, _, rfl, hh, rfl⟩
  | acknowledged => exact ⟨.iret c, _, rfl, hh, rfl⟩
  | idle =>
    cases hp : s.pc c with
    | idle => exact absurd h (by simp [hh, hp])
    | lock d => exact ⟨.testAndSet c, _, rfl, hh, d, hp, rfl⟩
    | clear d => exact ⟨.clear c, _, rfl, hh, d, hp, rfl⟩
    | send d => exact ⟨.send c, _, rfl, hh, d, hp, rfl⟩
    | wait d => exact ⟨.read c, _, rfl, hh, d, hp, rfl⟩
    | unlock d => exact ⟨.unlock c, _, rfl, hh, d, hp, rfl⟩

end Steps

/-! ## What holds all along -/

/-- The hand-shake is in one of its phases, and an interrupt is in service
only while its handler has not acknowledged it. -/
structure Sound (s : State C) : Prop where
  phase : ∃ φ as, Agrees φ as s
  inService : ∀ c, s.handler c = .idle → s.inService c = false

/-- The in-service bit is set and cleared by the handler that it belongs to. -/
theorem inService_step {s t : State C} {a : Action C}
    (h : ∀ c, s.handler c = .idle ∨ s.handler c = .acknowledged → s.inService c = false)
    (hstep : Step s a t) :
    ∀ c, t.handler c = .idle ∨ t.handler c = .acknowledged → t.inService c = false := by
  intro c hc
  cases a with
  | call e d =>
    rcases hstep with ⟨_, _, _, rfl⟩
    exact h c hc
  | testAndSet e | clear e | send e | read e | unlock e =>
    rcases hstep with ⟨_, d, _, rfl⟩
    exact h c hc
  | deliver e =>
    rcases hstep with ⟨_, _, _, rfl⟩
    by_cases hce : c = e
    · simp [hce] at hc
    · simp only [update_of_ne hce] at hc ⊢
      exact h c hc
  | store e =>
    rcases hstep with ⟨_, rfl⟩
    by_cases hce : c = e
    · simp [hce] at hc
    · simp only [update_of_ne hce] at hc
      exact h c hc
  | eoi e =>
    rcases hstep with ⟨_, rfl⟩
    by_cases hce : c = e
    · simp [hce]
    · simp only [update_of_ne hce] at hc ⊢
      exact h c hc
  | iret e =>
    rcases hstep with ⟨he, rfl⟩
    by_cases hce : c = e
    · subst hce
      exact h c (Or.inr he)
    · simp only [update_of_ne hce] at hc
      exact h c hc

theorem sound_run {as : List (Action C)} {s : State C} (hrun : Run (handshake C) as s) :
    Sound s := by
  have hservice := hrun.invariant
    (fun _ s => ∀ c, s.handler c = .idle ∨ s.handler c = .acknowledged → s.inService c = false)
    (fun _ hinit c _ => (hinit.2 c).2.2.2) fun _ _ _ _ h hstep => inService_step h hstep
  obtain ⟨φ, hφ⟩ := agrees_run hrun
  exact ⟨⟨φ, as, hφ⟩, fun c hc => hservice c (Or.inl hc)⟩

/-! ## Round the cycle -/

section Progress

variable {e : Execution (handshake C)} {c d : C}

theorem sound (e : Execution (handshake C)) (n : Nat) : Sound (e.state n) := sound_run (e.run n)

/-- A processor outside its handler, with no interrupt to come, comes to the
next step of its call. -/
theorem code_leadsTo (hfair : Fair Action.agent e) {P Q : State C → Prop} (c : C)
    (hpc : ∀ s, P s → s.pc c ≠ .idle) (hquiet : ∀ s, Sound s → P s → s.pending c = false)
    (hother : ∀ s a t, Sound s → P s → Step s a t → a.agent ≠ some (.code c) → P t ∨ Q t)
    (hhandler : ∀ s a t, Sound s → P s → Step s a t → a.agent = some (.code c) →
      s.handler c ≠ .idle → P t)
    (hown : ∀ s a t, Sound s → P s → Step s a t → a.agent = some (.code c) →
      s.handler c = .idle → Q t) : LeadsTo e P Q := by
  refine hfair.descends (sound e) (.code c) (fun s => (s.handler c).rank) ?_ ?_ fun s _ hs =>
    enabled_code (Or.inr (hpc s hs))
  · intro s a t hI hs hstep
    by_cases ha : a.agent = some (.code c)
    · by_cases hidle : s.handler c = .idle
      · exact Or.inl (hown s a t hI hs hstep ha hidle)
      · exact Or.inr ⟨hhandler s a t hI hs hstep ha hidle,
          Nat.le_of_lt (Step.handler_lt hstep ha hidle).1⟩
    · rcases hother s a t hI hs hstep ha with hp | hq
      · have heq := Step.handler_eq hstep ha (Or.inl (hquiet s hI hs))
        exact Or.inr ⟨hp, Nat.le_of_eq (congrArg Handler.rank heq)⟩
      · exact Or.inl hq
  · intro s a t hI hs ha hstep
    by_cases hidle : s.handler c = .idle
    · exact Or.inl (hown s a t hI hs hstep ha hidle)
    · exact Or.inr ⟨hhandler s a t hI hs hstep ha hidle, (Step.handler_lt hstep ha hidle).1⟩

/-- A processor that holds the lock goes from `p` to `q` in its call. -/
theorem pc_leadsTo (hfair : Fair Action.agent e) (c : C) {p q : Pc C} (hp : p ≠ .idle)
    (hquiet : ∀ s, Sound s → s.pc c = p → s.pending c = false)
    (hown : ∀ s a t, Step s a t → a.agent = some (.code c) → s.handler c = .idle → s.pc c = p →
      t.pc c = q) : LeadsTo e (fun s => s.pc c = p) fun s => s.pc c = q := by
  refine code_leadsTo hfair c (fun s hs => hs ▸ hp) hquiet ?_ ?_ ?_
  · intro s a t _ hs hstep ha
    exact Or.inl ((Step.pc_eq hstep ha (hs ▸ hp)).trans hs)
  · intro s a t _ hs hstep ha hidle
    exact (congrFun (Step.handler_lt hstep ha hidle).2.1 c).trans hs
  · intro s a t _ hs hstep ha hidle
    exact hown s a t hstep ha hidle hs

theorem clear_leadsTo_send (hfair : Fair Action.agent e) :
    LeadsTo e (fun s => s.pc c = .clear d) fun s => s.pc c = .send d := by
  refine pc_leadsTo hfair c (by simp) ?_ ?_
  · intro s hs hpc
    obtain ⟨φ, as, h⟩ := hs.phase
    obtain rfl := h.phase_of_clear hpc
    simpa [Phase.pendingAt] using h.pending c
  · intro s a t hstep ha hidle hpc
    have := Step.own hstep ha hidle
    simp_all

theorem send_leadsTo_wait (hfair : Fair Action.agent e) :
    LeadsTo e (fun s => s.pc c = .send d) fun s => s.pc c = .wait d := by
  refine pc_leadsTo hfair c (by simp) ?_ ?_
  · intro s hs hpc
    obtain ⟨φ, as, h⟩ := hs.phase
    obtain rfl := h.phase_of_send hpc
    simpa [Phase.pendingAt] using h.pending c
  · intro s a t hstep ha hidle hpc
    have := Step.own hstep ha hidle
    simp_all

theorem unlock_leadsTo_idle (hfair : Fair Action.agent e) :
    LeadsTo e (fun s => s.pc c = .unlock d) fun s => s.pc c = .idle := by
  refine pc_leadsTo hfair c (by simp) ?_ ?_
  · intro s hs hpc
    obtain ⟨φ, as, h⟩ := hs.phase
    obtain rfl := h.phase_of_unlock hpc
    simpa [Phase.pendingAt] using h.pending c
  · intro s a t hstep ha hidle hpc
    have := Step.own hstep ha hidle
    simp_all

/-- Before the flag is set the caller stays in its loop. -/
theorem Step.wait_stays {s t : State C} {a : Action C} (hstep : Step s a t)
    (hpc : s.pc c = .wait d) (hdone : s.ipiDone = false) : t.pc c = .wait d := by
  by_cases ha : a.agent = some (.code c)
  · by_cases hidle : s.handler c = .idle
    · have := Step.own hstep ha hidle
      simp_all
    · exact (congrFun (Step.handler_lt hstep ha hidle).2.1 c).trans hpc
  · exact (Step.pc_eq hstep ha (by simp [hpc])).trans hpc

/-- While a caller waits nobody else clears the flag. -/
theorem Step.done_stays {s t : State C} {a : Action C} (hs : Sound s) (hstep : Step s a t)
    (hpc : s.pc c = .wait d) (hdone : s.ipiDone = true) : t.ipiDone = true := by
  obtain ⟨φ, as, h⟩ := hs.phase
  cases a with
  | clear e =>
    obtain ⟨_, target, hclear, _⟩ := hstep
    obtain rfl := h.phase_of_done hpc hdone
    exact absurd (h.phase_of_clear hclear) (by simp)
  | store e =>
    rcases hstep with ⟨_, rfl⟩
    rfl
  | call e target | deliver e =>
    rcases hstep with ⟨_, _, _, rfl⟩
    exact hdone
  | testAndSet e | send e | read e | unlock e =>
    rcases hstep with ⟨_, target, _, rfl⟩
    exact hdone
  | eoi e | iret e =>
    rcases hstep with ⟨_, rfl⟩
    exact hdone

/-- The flag is clear as long as the interrupt waits for delivery or its
handler has not stored. -/
theorem Sound.not_done {s : State C} (hs : Sound s)
    (hd : s.pending d = true ∨ s.handler d = .entered) : s.ipiDone = false := by
  obtain ⟨φ, as, h⟩ := hs.phase
  rcases hd with hd | hd
  · obtain ⟨c, rfl⟩ := h.phase_of_pending hd
    exact h.at_.2
  · obtain ⟨c, rfl⟩ := h.phase_of_entered hd
    exact h.at_.2

theorem pending_leadsTo_idle (hfair : Fair Action.agent e) :
    LeadsTo e (fun s => s.pc c = .wait d ∧ s.pending d = true)
      fun s => s.pc c = .wait d ∧ s.pending d = true ∧ s.handler d = .idle := by
  have hfinish : LeadsTo e (fun s => s.pc c = .wait d ∧ s.pending d = true ∧ s.handler d ≠ .idle)
      fun s => s.pc c = .wait d ∧ s.pending d = true ∧ s.handler d = .idle := by
    have hkeep : ∀ (s : State C) a t, Sound s → s.pc c = .wait d → s.pending d = true →
        s.handler d ≠ .idle → Step s a t → t.pc c = .wait d ∧ t.pending d = true := by
      intro s a t hs hpc hd hbusy hstep
      refine ⟨Step.wait_stays hstep hpc (hs.not_done (Or.inl hd)), ?_⟩
      rcases Step.pending_cases hstep hd with ⟨h, _⟩ | ⟨h, _⟩
      · exact h
      · exact absurd h hbusy
    refine hfair.descends (sound e) (.code d) (fun s => (s.handler d).rank) ?_ ?_
      fun s _ hs => enabled_code (Or.inl hs.2.2)
    · intro s a t hI hs hstep
      obtain ⟨hpc, hd⟩ := hkeep s a t hI hs.1 hs.2.1 hs.2.2 hstep
      by_cases hidle : t.handler d = .idle
      · exact Or.inl ⟨hpc, hd, hidle⟩
      · refine Or.inr ⟨⟨hpc, hd, hidle⟩, ?_⟩
        by_cases ha : a.agent = some (.code d)
        · exact Nat.le_of_lt (Step.handler_lt hstep ha hs.2.2).1
        · exact Nat.le_of_eq (congrArg Handler.rank (Step.handler_eq hstep ha (Or.inr hs.2.2)))
    · intro s a t hI hs ha hstep
      obtain ⟨hpc, hd⟩ := hkeep s a t hI hs.1 hs.2.1 hs.2.2 hstep
      by_cases hidle : t.handler d = .idle
      · exact Or.inl ⟨hpc, hd, hidle⟩
      · exact Or.inr ⟨⟨hpc, hd, hidle⟩, (Step.handler_lt hstep ha hs.2.2).1⟩
  intro n hn
  by_cases hidle : (e.state n).handler d = .idle
  · exact ⟨n, Nat.le_refl n, hn.1, hn.2, hidle⟩
  · exact hfinish n ⟨hn.1, hn.2, hidle⟩

/-- A processor that is outside its handler takes the interrupt. -/
theorem idle_leadsTo_entered (hfair : Fair Action.agent e) :
    LeadsTo e (fun s => s.pc c = .wait d ∧ s.pending d = true ∧ s.handler d = .idle)
      fun s => s.pc c = .wait d ∧ s.handler d = .entered := by
  refine hfair.ensures (sound e) (.interrupt d) ?_ ?_ ?_
  · intro s a t hs h hstep
    have hpc := Step.wait_stays hstep h.1 (hs.not_done (Or.inl h.2.1))
    rcases Step.pending_cases hstep h.2.1 with ⟨hd, hidle⟩ | ⟨_, hentered, _⟩
    · exact Or.inl ⟨hpc, hd, hidle h.2.2⟩
    · exact Or.inr ⟨hpc, hentered⟩
  · intro s a t _ h ha hstep
    cases a with
    | deliver x =>
      obtain rfl : x = d := by simpa [Action.agent] using ha
      rcases hstep with ⟨_, _, _, rfl⟩
      exact ⟨h.1, update_self _ _ _⟩
    | _ => simp [Action.agent] at ha
  · intro s hs h
    exact ⟨.deliver d, _, rfl, h.2.2, h.2.1, hs.inService d h.2.2, rfl⟩

theorem entered_leadsTo_done (hfair : Fair Action.agent e) :
    LeadsTo e (fun s => s.pc c = .wait d ∧ s.handler d = .entered)
      fun s => s.pc c = .wait d ∧ s.ipiDone = true := by
  have hbusy : ∀ s : State C, s.handler d = .entered → s.handler d ≠ .idle := by
    intro s h
    simp [h]
  have hstore : ∀ (s : State C) a t, Sound s → s.pc c = .wait d ∧ s.handler d = .entered →
      a.agent = some (.code d) → Step s a t → t.pc c = .wait d ∧ t.ipiDone = true := by
    intro s a t hs h ha hstep
    refine ⟨Step.wait_stays hstep h.1 (hs.not_done (Or.inr h.2)), ?_⟩
    cases a with
    | store x =>
      rcases hstep with ⟨_, rfl⟩
      rfl
    | call | deliver => simp [Action.agent] at ha
    | testAndSet x | clear x | send x | read x | unlock x | eoi x | iret x =>
      obtain rfl : x = d := by simpa [Action.agent] using ha
      exact absurd (h.2.symm.trans hstep.1) (by simp)
  refine hfair.ensures (sound e) (.code d) ?_ hstore fun s _ h =>
    enabled_code (Or.inl (hbusy s h.2))
  intro s a t hs h hstep
  by_cases ha : a.agent = some (.code d)
  · exact Or.inr (hstore s a t hs h ha hstep)
  · exact Or.inl ⟨Step.wait_stays hstep h.1 (hs.not_done (Or.inr h.2)),
      (Step.handler_eq hstep ha (Or.inr (hbusy s h.2))).trans h.2⟩

theorem done_leadsTo_unlock (hfair : Fair Action.agent e) :
    LeadsTo e (fun s => s.pc c = .wait d ∧ s.ipiDone = true) fun s => s.pc c = .unlock d := by
  refine code_leadsTo hfair c (fun s h => by simp [h.1]) ?_ ?_ ?_ ?_
  · intro s hs h
    obtain ⟨φ, as, hφ⟩ := hs.phase
    obtain rfl := hφ.phase_of_done h.1 h.2
    simpa [Phase.pendingAt] using hφ.pending c
  · intro s a t hs h hstep ha
    have hpc := Step.pc_eq hstep ha (by simp [h.1])
    exact Or.inl ⟨hpc.trans h.1, Step.done_stays hs hstep h.1 h.2⟩
  · intro s a t _ h hstep ha hidle
    obtain ⟨_, hpc, _, _, hdone⟩ := Step.handler_lt hstep ha hidle
    exact ⟨(congrFun hpc c).trans h.1, hdone h.2⟩
  · intro s a t _ h hstep ha hidle
    have := Step.own hstep ha hidle
    simp_all

/-- The interrupt of a call reaches its target, and the caller sees the
answer. -/
theorem wait_leadsTo_unlock (hfair : Fair Action.agent e) :
    LeadsTo e (fun s => s.pc c = .wait d) fun s => s.pc c = .unlock d := by
  have hentered := (entered_leadsTo_done (c := c) (d := d) hfair).trans (done_leadsTo_unlock hfair)
  have hpending := ((pending_leadsTo_idle (c := c) (d := d) hfair).trans
    (idle_leadsTo_entered hfair)).trans hentered
  intro n hn
  obtain ⟨φ, as, h⟩ := (sound e n).phase
  have hholder : φ.holder = some c := h.holder c (by rw [hn]; trivial)
  have hat := h.at_
  cases φ with
  | sent x y =>
    obtain rfl : x = c := by simpa [Phase.holder] using hholder
    obtain rfl : d = y := Pc.wait.inj (hn.symm.trans hat.1)
    exact hpending n ⟨hn, (h.pending d).2 rfl⟩
  | serving x y =>
    obtain rfl : x = c := by simpa [Phase.holder] using hholder
    obtain rfl : d = y := Pc.wait.inj (hn.symm.trans hat.1)
    exact hentered n ⟨hn, (h.serving d).2 rfl⟩
  | acked x y => exact done_leadsTo_unlock hfair n ⟨hn, hat.2⟩
  | free => simp [Phase.holder] at hholder
  | locked x y =>
    obtain rfl : x = c := by simpa [Phase.holder] using hholder
    exact absurd (hn.symm.trans hat) (by simp)
  | cleared x y =>
    obtain rfl : x = c := by simpa [Phase.holder] using hholder
    exact absurd (hn.symm.trans hat.1) (by simp)

/-- The call of the processor that holds the lock comes back. -/
theorem critical_leadsTo_idle (hfair : Fair Action.agent e) (c : C) :
    LeadsTo e (fun s => (s.pc c).Critical) fun s => s.pc c = .idle := by
  intro n hn
  have hwait : ∀ d, LeadsTo e (fun s => s.pc c = .wait d) fun s => s.pc c = .idle := fun d =>
    (wait_leadsTo_unlock hfair).trans (unlock_leadsTo_idle hfair)
  have hsend : ∀ d, LeadsTo e (fun s => s.pc c = .send d) fun s => s.pc c = .idle := fun d =>
    (send_leadsTo_wait hfair).trans (hwait d)
  cases hpc : (e.state n).pc c with
  | idle => exact ⟨n, Nat.le_refl n, hpc⟩
  | lock d =>
    rw [hpc] at hn
    exact hn.elim
  | clear d => exact (clear_leadsTo_send hfair).trans (hsend d) n hpc
  | send d => exact hsend d n hpc
  | wait d => exact hwait d n hpc
  | unlock d => exact unlock_leadsTo_idle hfair n hpc

/-- Somebody gets the lock. -/
theorem lock_leadsTo_critical (hfair : Fair Action.agent e) :
    LeadsTo e (fun s => s.pc c = .lock d) fun s => ∃ x, (s.pc x).Critical := by
  have hheld : ∀ s : State C, Sound s → s.lock = true → ∃ x, (s.pc x).Critical := by
    intro s hs hlock
    obtain ⟨φ, as, h⟩ := hs.phase
    have hsome := h.lock.symm.trans hlock
    have hat := h.at_
    cases φ with
    | free => simp [Phase.holder] at hsome
    | locked x y =>
      refine ⟨x, ?_⟩
      rw [show s.pc x = .clear y from hat]
      trivial
    | cleared x y | sent x y | serving x y =>
      refine ⟨x, ?_⟩
      rw [hat.1]
      trivial
    | acked x y =>
      refine ⟨x, ?_⟩
      rcases hat.1 with hpc | hpc <;> rw [hpc] <;> trivial
  have htaken : LeadsTo e (fun s => s.pc c = .lock d ∧ s.lock = false) fun s => s.lock = true := by
    refine code_leadsTo hfair c (fun s h => by simp [h.1]) ?_ ?_ ?_ ?_
    · intro s hs h
      obtain ⟨φ, as, hφ⟩ := hs.phase
      obtain rfl := hφ.phase_of_unlocked h.2
      simpa [Phase.pendingAt] using hφ.pending c
    · intro s a t _ h hstep ha
      have hpc := (Step.pc_eq hstep ha (by simp [h.1])).trans h.1
      cases hlock : t.lock with
      | false => exact Or.inl ⟨hpc, rfl⟩
      | true => exact Or.inr rfl
    · intro s a t _ h hstep ha hidle
      obtain ⟨_, hpc, _, hlock, _⟩ := Step.handler_lt hstep ha hidle
      exact ⟨(congrFun hpc c).trans h.1, hlock.trans h.2⟩
    · intro s a t _ h hstep ha hidle
      have := Step.own hstep ha hidle
      simp_all
  intro n hn
  cases hlock : (e.state n).lock with
  | true => exact ⟨n, Nat.le_refl n, hheld _ (sound e n) hlock⟩
  | false =>
    obtain ⟨m, hm, hlocked⟩ := htaken n ⟨hn, hlock⟩
    exact ⟨m, hm, hheld _ (sound e m) hlocked⟩

/-- Whenever a call is under way, some call gets the lock and comes back. -/
theorem exists_return (hfair : Fair Action.agent e) {n : Nat} (hcall : (e.state n).pc c ≠ .idle) :
    ∃ x m k, n ≤ m ∧ m ≤ k ∧ ((e.state m).pc x).Critical ∧ (e.state k).pc x = .idle := by
  have hcritical : ∃ m, n ≤ m ∧ ∃ x, ((e.state m).pc x).Critical := by
    cases hpc : (e.state n).pc c with
    | idle => exact absurd hpc hcall
    | lock d => exact lock_leadsTo_critical hfair n hpc
    | clear d | send d | wait d | unlock d =>
      refine ⟨n, Nat.le_refl n, c, ?_⟩
      rw [hpc]
      trivial
  obtain ⟨m, hm, x, hx⟩ := hcritical
  obtain ⟨k, hk, hidle⟩ := critical_leadsTo_idle hfair x m hx
  exact ⟨x, m, k, hm, hk, hx, hidle⟩

/-! ## When the calls end -/

theorem Step.idle_stays {s t : State C} {a : Action C} (hstep : Step s a t)
    (ha : ∀ x y, a ≠ .call x y) (hc : s.pc c = .idle) : t.pc c = .idle := by
  -- a processor that takes a step of `__on_cpu` is not idle
  have hne : ∀ x p, s.pc x = p → p ≠ .idle → c ≠ x := by
    rintro x p hx hp rfl
    exact hp (hx.symm.trans hc)
  cases a with
  | call x y => exact absurd rfl (ha x y)
  | deliver x =>
    rcases hstep with ⟨_, _, _, rfl⟩
    exact hc
  | store x | eoi x | iret x =>
    rcases hstep with ⟨_, rfl⟩
    exact hc
  | testAndSet x | read x =>
    obtain ⟨_, y, hx, rfl⟩ := hstep
    dsimp only
    split <;> simp [update_of_ne (hne x _ hx (by simp)), hc]
  | clear x | send x | unlock x =>
    obtain ⟨_, y, hx, rfl⟩ := hstep
    exact (update_of_ne (hne x _ hx (by simp)) _ _).trans hc

/-- From `n` on nobody makes a call. -/
def NoCalls (e : Execution (handshake C)) (n : Nat) : Prop :=
  ∀ m, n ≤ m → ∀ x y, e.action m ≠ some (.call x y)

theorem NoCalls.idle_stays {n m k : Nat} (hno : NoCalls e n) (hm : n ≤ m)
    (hc : (e.state m).pc c = .idle) (hk : m ≤ k) : (e.state k).pc c = .idle := by
  induction hk with
  | refl => exact hc
  | @step k hk ih =>
    rcases e.next k with ⟨_, hsame⟩ | ⟨a, ha, hstep⟩
    · rw [hsame]
      exact ih
    · refine Step.idle_stays hstep ?_ ih
      rintro x y rfl
      exact hno k (Nat.le_trans hm hk) x y ha

/-- The processors with a call under way. -/
def callers [Fintype C] (s : State C) : Finset C := Finset.univ.filter fun c => s.pc c ≠ .idle

/-- Each return leaves one caller less. -/
theorem NoCalls.drains [Fintype C] (hfair : Fair Action.agent e) {n : Nat} (hno : NoCalls e n) :
    ∀ m, n ≤ m → ∃ k, m ≤ k ∧ ∀ c, (e.state k).pc c = .idle := by
  intro m hm
  induction hcard : (callers (e.state m)).card using Nat.strongRecOn generalizing m with
  | ind r ih =>
    by_cases hidle : ∀ c, (e.state m).pc c = .idle
    · exact ⟨m, Nat.le_refl m, hidle⟩
    · obtain ⟨c, hc⟩ := not_forall.1 hidle
      obtain ⟨x, j, k, hj, hk, hcritical, hx⟩ := exists_return hfair hc
      have hbusy : (e.state m).pc x ≠ .idle := by
        intro h
        rw [hno.idle_stays hm h hj] at hcritical
        exact hcritical
      have hlt : callers (e.state k) ⊂ callers (e.state m) := by
        refine Finset.ssubset_iff_of_subset ?_ |>.2 ⟨x, by simp [callers, hbusy], by simp [callers, hx]⟩
        intro y hy
        simp only [callers, Finset.mem_filter, Finset.mem_univ, true_and] at hy ⊢
        exact fun h => hy (hno.idle_stays hm h (Nat.le_trans hj hk))
      obtain ⟨k', hk', hall⟩ := ih _ (hcard ▸ Finset.card_lt_card hlt) k
        (Nat.le_trans hm (Nat.le_trans hj hk)) rfl
      exact ⟨k', Nat.le_trans (Nat.le_trans hj hk) hk', hall⟩

/-- In a fair execution of processors that all take interrupts: whenever a call is
under way, some call gets the lock and comes back; and once no more calls are
made, all of them come back. -/
theorem calls_return [Fintype C] (hfair : Fair Action.agent e) :
    (∀ n c, (e.state n).pc c ≠ .idle →
      ∃ x m k, n ≤ m ∧ m ≤ k ∧ ((e.state m).pc x).Critical ∧ (e.state k).pc x = .idle) ∧
    ∀ n, NoCalls e n → ∃ m, n ≤ m ∧ ∀ k, m ≤ k → ∀ c, (e.state k).pc c = .idle := by
  refine ⟨fun n c hc => exists_return hfair hc, fun n hno => ?_⟩
  obtain ⟨m, hm, hall⟩ := hno.drains hfair n (Nat.le_refl n)
  exact ⟨m, hm, fun k hk c => hno.idle_stays hm (hall c) hk⟩

end Progress

/-- Between the calls nobody has anything to do. -/
theorem not_enabled_of_idle {s : State C}
    (h : ∀ c, s.pc c = .idle ∧ s.handler c = .idle ∧ s.pending c = false) (p : Agent C) :
    ¬ Enabled (handshake C) Action.agent p s := by
  rintro ⟨a, t, ha, hstep⟩
  cases a with
  | call => simp [Action.agent] at ha
  | deliver c => exact absurd ((h c).2.2.symm.trans hstep.2.1) (by simp)
  | testAndSet c | clear c | send c | read c | unlock c =>
    obtain ⟨_, d, hpc, _⟩ := hstep
    exact absurd ((h c).1.symm.trans hpc) (by simp)
  | store c | eoi c | iret c => exact absurd ((h c).2.1.symm.trans hstep.1) (by simp)

/-- Two processors, the first of which calls the second one. -/
theorem calls_return_two : ∃ e : Execution (handshake Bool), Fair Action.agent e ∧
    (e.state 1).pc false = .lock true ∧
      ∃ x m k, 1 ≤ m ∧ m ≤ k ∧ ((e.state m).pc x).Critical ∧ (e.state k).pc x = .idle := by
  have hinit : (handshake Bool).Init quietState := ⟨rfl, fun _ => ⟨rfl, rfl, rfl, rfl⟩⟩
  have hcall := (Run.init hinit).step (a := Action.call false true) ⟨rfl, rfl, by decide, rfl⟩
  let s₁ : State Bool := { quietState with pc := update quietState.pc false (.lock true) }
  have h : Run ⟨(· = s₁), Step⟩ [] s₁ := .init rfl
  have h := h.step (a := Action.testAndSet false) ⟨rfl, true, rfl, rfl⟩
  have h := h.step (a := Action.clear false) ⟨rfl, true, rfl, rfl⟩
  have h := h.step (a := Action.send false) ⟨rfl, true, rfl, rfl⟩
  have h := h.step (a := Action.deliver true) ⟨rfl, rfl, rfl, rfl⟩
  have h := h.step (a := Action.store true) ⟨rfl, rfl⟩
  have h := h.step (a := Action.eoi true) ⟨rfl, rfl⟩
  have h := h.step (a := Action.iret true) ⟨rfl, rfl⟩
  have h := h.step (a := Action.read false) ⟨rfl, true, rfl, rfl⟩
  have h := h.step (a := Action.unlock false) ⟨rfl, true, rfl, rfl⟩
  obtain ⟨e, hstart, hrest⟩ := exists_resting hcall h
  have hlock : (e.state 1).pc false = .lock true := congrFun (congrArg State.pc hstart) false
  have hfair : Fair Action.agent e := by
    refine fair_of_rests (fun n hn => (hrest n hn).1) (not_enabled_of_idle fun c => ?_)
    cases c <;> exact ⟨rfl, rfl, rfl⟩
  exact ⟨e, hfair, hlock, (calls_return hfair).1 1 false (by simp [hlock])⟩

end HyperBench.Ipi

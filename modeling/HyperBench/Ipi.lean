import HyperBench.Lib.Transition
import Mathlib.Logic.Function.Basic
import Mathlib.Data.List.Count

/-!
# The IPI hand-shake of `x86_64/mp.c`

Any number of processors call `__on_cpu`, and any number of them is the
target of a call and runs the handler `ipi`.  The atomic steps of all of them
interleave in every order.

The hand-shake itself is the cycle of the six phases of `Phase`.  `Agrees` is
the simulation relation between a phase and the state of the machine, and
`agrees_step` says that every atomic step keeps it: the phase stays, or goes
one further on the cycle.  `ipi_handshake` reads the properties of the
hand-shake off the phase of a run.
-/

namespace HyperBench.Ipi

open Transition Function

variable {C : Type*} [DecidableEq C]

/-! ## The machine -/

/-- Where a processor is in `__on_cpu`, with the target of its call. -/
inductive Pc (C : Type*) where
  | idle
  /-- In front of the test-and-set of `spin_lock`. -/
  | lock (target : C)
  /-- In front of `ipi_done = 0`. -/
  | clear (target : C)
  /-- In front of `apic_icr_write`. -/
  | send (target : C)
  /-- In front of the next read of `while(!ipi_done)`. -/
  | wait (target : C)
  /-- In front of `spin_unlock`. -/
  | unlock (target : C)
  deriving DecidableEq

/-- Where a processor is in the handler, which runs with interrupts masked
up to its `iretq`. -/
inductive Handler where
  | idle
  /-- In front of `ipi_done = 1`. -/
  | entered
  /-- In front of the write to `APIC_EOI`. -/
  | stored
  /-- In front of `iretq`. -/
  | acknowledged
  deriving DecidableEq

/-- The shared variables, and of each processor its two program counters and
the pending and in-service bits of the vector `IPI_VECTOR`. -/
structure State (C : Type*) where
  lock : Bool
  ipiDone : Bool
  pc : C → Pc C
  handler : C → Handler
  pending : C → Bool
  inService : C → Bool

inductive Action (C : Type*) where
  | call (c target : C)
  | testAndSet (c : C)
  | clear (c : C)
  | send (c : C)
  | read (c : C)
  | unlock (c : C)
  | deliver (c : C)
  | store (c : C)
  | eoi (c : C)
  | iret (c : C)
  deriving DecidableEq

/-- The atomic steps.  A processor goes on in `__on_cpu` only while it is not
in the handler.  An interrupt is delivered only when no handler runs and no
earlier one waits for its end-of-interrupt. -/
def Step (s : State C) : Action C → State C → Prop
  | .call c target, t =>
    s.handler c = .idle ∧ s.pc c = .idle ∧ target ≠ c ∧
      t = { s with pc := update s.pc c (.lock target) }
  | .testAndSet c, t =>
    s.handler c = .idle ∧ ∃ target, s.pc c = .lock target ∧
      t = { s with lock := true, pc := if s.lock then s.pc else update s.pc c (.clear target) }
  | .clear c, t =>
    s.handler c = .idle ∧ ∃ target, s.pc c = .clear target ∧
      t = { s with ipiDone := false, pc := update s.pc c (.send target) }
  | .send c, t =>
    s.handler c = .idle ∧ ∃ target, s.pc c = .send target ∧
      t = { s with pending := update s.pending target true, pc := update s.pc c (.wait target) }
  | .read c, t =>
    s.handler c = .idle ∧ ∃ target, s.pc c = .wait target ∧
      t = { s with pc := if s.ipiDone then update s.pc c (.unlock target) else s.pc }
  | .unlock c, t =>
    s.handler c = .idle ∧ ∃ target, s.pc c = .unlock target ∧
      t = { s with lock := false, pc := update s.pc c .idle }
  | .deliver c, t =>
    s.handler c = .idle ∧ s.pending c = true ∧ s.inService c = false ∧
      t = { s with
        pending := update s.pending c false
        inService := update s.inService c true
        handler := update s.handler c .entered }
  | .store c, t =>
    s.handler c = .entered ∧
      t = { s with ipiDone := true, handler := update s.handler c .stored }
  | .eoi c, t =>
    s.handler c = .stored ∧
      t = { s with
        inService := update s.inService c false, handler := update s.handler c .acknowledged }
  | .iret c, t =>
    s.handler c = .acknowledged ∧ t = { s with handler := update s.handler c .idle }

/-- The hand-shake from a state in which no call is under way. -/
def handshake (C : Type*) [DecidableEq C] : System (State C) (Action C) where
  Init s := s.lock = false ∧ ∀ c, s.pc c = .idle ∧ s.handler c = .idle ∧ s.pending c = false ∧
    s.inService c = false
  Step := Step

/-! ## Counting the actions of a run -/

def Action.isSend : Action C → Bool
  | .send _ => true
  | _ => false

def Action.isReturn : Action C → Bool
  | .unlock _ => true
  | _ => false

def Action.isDeliver : Action C → Bool
  | .deliver _ => true
  | _ => false

def Action.isStore : Action C → Bool
  | .store _ => true
  | _ => false

/-- The actions since the processor `c` cleared `ipi_done` last, newest
first. -/
def sinceClear (c : C) (as : List (Action C)) : List (Action C) :=
  as.reverse.takeWhile (· ≠ .clear c)

theorem sinceClear_clear (c : C) (as : List (Action C)) : sinceClear c (as ++ [.clear c]) = [] := by
  simp [sinceClear]

theorem sinceClear_append {c : C} {a : Action C} (h : a ≠ .clear c) (as : List (Action C)) :
    sinceClear c (as ++ [a]) = a :: sinceClear c as := by
  simp [sinceClear, h]

/-- The numbers of sends, handler starts and handler stores that no return
stands against yet. -/
structure Tally (as : List (Action C)) (open_ : Nat × Nat × Nat) : Prop where
  sends : as.countP (·.isSend) = as.countP (·.isReturn) + open_.1
  delivers : as.countP (·.isDeliver) = as.countP (·.isReturn) + open_.2.1
  stores : as.countP (·.isStore) = as.countP (·.isReturn) + open_.2.2

/-- The handler has started `n` times and has stored `m` times since `c`
cleared `ipi_done` last, each time on the processor `d`. -/
structure RunsSince (c d : C) (as : List (Action C)) (n m : Nat) : Prop where
  deliver : (sinceClear c as).count (.deliver d) = n
  delivers : (sinceClear c as).countP (·.isDeliver) = n
  store : (sinceClear c as).count (.store d) = m
  stores : (sinceClear c as).countP (·.isStore) = m

/-! ## The cycle of phases -/

/-- The phases of the hand-shake, with the processor that holds the lock and
the target of its call. -/
inductive Phase (C : Type*) where
  | free
  | locked (c d : C)
  | cleared (c d : C)
  | sent (c d : C)
  | serving (c d : C)
  | acked (c d : C)

namespace Phase

def holder : Phase C → Option C
  | free => none
  | locked c _ | cleared c _ | sent c _ | serving c _ | acked c _ => some c

def pendingAt : Phase C → Option C
  | sent _ d => some d
  | _ => none

def servingAt : Phase C → Option C
  | serving _ d => some d
  | _ => none

/-- The tally of a run in this phase. -/
def open_ : Phase C → Nat × Nat × Nat
  | free | locked _ _ | cleared _ _ => (0, 0, 0)
  | sent _ _ => (1, 0, 0)
  | serving _ _ => (1, 1, 0)
  | acked _ _ => (1, 1, 1)

/-- Where the holder of the lock is, and the flag it waits for. -/
def At (s : State C) : Phase C → Prop
  | free => True
  | locked c d => s.pc c = .clear d
  | cleared c d => s.pc c = .send d ∧ s.ipiDone = false
  | sent c d | serving c d => s.pc c = .wait d ∧ s.ipiDone = false
  | acked c d => (s.pc c = .wait d ∨ s.pc c = .unlock d) ∧ s.ipiDone = true

def Since (as : List (Action C)) : Phase C → Prop
  | free | locked _ _ => True
  | cleared c d | sent c d => RunsSince c d as 0 0
  | serving c d => RunsSince c d as 1 0
  | acked c d => RunsSince c d as 1 1

end Phase

/-- The processor is between its test-and-set and its `spin_unlock`. -/
def Pc.Critical : Pc C → Prop
  | .idle | .lock _ => False
  | _ => True

/-- The simulation relation. -/
structure Agrees (φ : Phase C) (as : List (Action C)) (s : State C) : Prop where
  lock : s.lock = φ.holder.isSome
  holder : ∀ c, (s.pc c).Critical → φ.holder = some c
  at_ : φ.At s
  pending : ∀ c, s.pending c = true ↔ φ.pendingAt = some c
  serving : ∀ c, s.handler c = .entered ↔ φ.servingAt = some c
  tally : Tally as φ.open_
  since : φ.Since as

theorem agrees_init {s : State C} (h : (handshake C).Init s) : Agrees .free [] s := by
  rcases h with ⟨hlock, hidle⟩
  refine ⟨hlock, ?_, trivial, ?_, ?_, ⟨rfl, rfl, rfl⟩, trivial⟩
  · intro c hc
    rw [(hidle c).1] at hc
    exact hc.elim
  · intro c
    simp [(hidle c).2.2.1, Phase.pendingAt]
  · intro c
    simp [(hidle c).2.1, Phase.servingAt]

/-! ## Reading the phase off the machine -/

namespace Agrees

variable {φ : Phase C} {as : List (Action C)} {s : State C} {c d : C}

theorem phase_of_unlocked (h : Agrees φ as s) (hlock : s.lock = false) : φ = .free := by
  have hl := h.lock
  rw [hlock] at hl
  cases φ with
  | free => rfl
  | _ => simp [Phase.holder] at hl

theorem phase_of_clear (h : Agrees φ as s) (hpc : s.pc c = .clear d) : φ = .locked c d := by
  have hc : φ.holder = some c := h.holder c (by rw [hpc]; trivial)
  have hat := h.at_
  cases φ <;> simp_all [Phase.holder, Phase.At]

theorem phase_of_send (h : Agrees φ as s) (hpc : s.pc c = .send d) : φ = .cleared c d := by
  have hc : φ.holder = some c := h.holder c (by rw [hpc]; trivial)
  have hat := h.at_
  cases φ <;> simp_all [Phase.holder, Phase.At]

theorem phase_of_done (h : Agrees φ as s) (hpc : s.pc c = .wait d) (hdone : s.ipiDone = true) :
    φ = .acked c d := by
  have hc : φ.holder = some c := h.holder c (by rw [hpc]; trivial)
  have hat := h.at_
  cases φ <;> simp_all [Phase.holder, Phase.At]

theorem phase_of_unlock (h : Agrees φ as s) (hpc : s.pc c = .unlock d) : φ = .acked c d := by
  have hc : φ.holder = some c := h.holder c (by rw [hpc]; trivial)
  have hat := h.at_
  cases φ <;> simp_all [Phase.holder, Phase.At]

theorem phase_of_pending (h : Agrees φ as s) (hd : s.pending d = true) : ∃ c, φ = .sent c d := by
  have hp := (h.pending d).1 hd
  cases φ <;> simp_all [Phase.pendingAt]

theorem phase_of_entered (h : Agrees φ as s) (hd : s.handler d = .entered) :
    ∃ c, φ = .serving c d := by
  have hp := (h.serving d).1 hd
  cases φ <;> simp_all [Phase.servingAt]

end Agrees

/-! ## The steps -/

section Steps

variable {φ : Phase C} {as : List (Action C)} {s t : State C} {c d : C}

/-- An action that is none of the five that the phases count. -/
def Action.Silent : Action C → Prop
  | .call _ _ | .testAndSet _ | .read _ | .eoi _ | .iret _ => True
  | _ => False

omit [DecidableEq C] in
theorem Action.Silent.counts_none {a : Action C} (ha : a.Silent) :
    a.isReturn = false ∧ a.isSend = false ∧ a.isDeliver = false ∧ a.isStore = false := by
  cases a <;> first | exact ha.elim | exact ⟨rfl, rfl, rfl, rfl⟩

omit [DecidableEq C] in
/-- One more action adds to the tally what it counts for. -/
theorem Tally.append {i j k n : Nat} {a : Action C} (h : Tally as (i, j, k)) {i' j' k' : Nat}
    (hn : (if a.isReturn then 1 else 0) = n)
    (hi : i + (if a.isSend then 1 else 0) = n + i')
    (hj : j + (if a.isDeliver then 1 else 0) = n + j')
    (hk : k + (if a.isStore then 1 else 0) = n + k') : Tally (as ++ [a]) (i', j', k') := by
  rcases h with ⟨h₁, h₂, h₃⟩
  dsimp only at h₁ h₂ h₃
  refine ⟨?_, ?_, ?_⟩
  all_goals
    rw [List.countP_append, List.countP_append, List.countP_singleton, List.countP_singleton]
    dsimp only
    omega

omit [DecidableEq C] in
theorem Tally.silent {o : Nat × Nat × Nat} {a : Action C} (h : Tally as o) (ha : a.Silent) :
    Tally (as ++ [a]) o := by
  rcases ha.counts_none with ⟨h₁, h₂, h₃, h₄⟩
  exact h.append rfl (by simp [h₁, h₂]) (by simp [h₁, h₃]) (by simp [h₁, h₄])

/-- One more action that does not clear the flag. -/
theorem RunsSince.append {n m n' m' : Nat} {a : Action C} (h : RunsSince c d as n m)
    (hclear : a ≠ .clear c) (hn : n + (if a = .deliver d then 1 else 0) = n')
    (hn' : n + (if a.isDeliver then 1 else 0) = n') (hm : m + (if a = .store d then 1 else 0) = m')
    (hm' : m + (if a.isStore then 1 else 0) = m') : RunsSince c d (as ++ [a]) n' m' := by
  rcases h with ⟨h₁, h₂, h₃, h₄⟩
  refine ⟨?_, ?_, ?_, ?_⟩
  · rw [sinceClear_append hclear, List.count_cons, h₁, ← hn]
    simp
  · rw [sinceClear_append hclear, List.countP_cons, h₂, ← hn']
  · rw [sinceClear_append hclear, List.count_cons, h₃, ← hm]
    simp
  · rw [sinceClear_append hclear, List.countP_cons, h₄, ← hm']

theorem RunsSince.silent {n m : Nat} {a : Action C} (h : RunsSince c d as n m) (ha : a.Silent) :
    RunsSince c d (as ++ [a]) n m := by
  rcases ha.counts_none with ⟨_, _, h₃, h₄⟩
  have hclear : a ≠ .clear c := fun he => (he ▸ ha : (Action.clear c).Silent)
  have hdeliver : a ≠ .deliver d := fun he => (he ▸ ha : (Action.deliver d).Silent)
  have hstore : a ≠ .store d := fun he => (he ▸ ha : (Action.store d).Silent)
  exact h.append hclear (by simp [hdeliver]) (by simp [h₃]) (by simp [hstore]) (by simp [h₄])

theorem Phase.Since.silent {a : Action C} (h : φ.Since as) (ha : a.Silent) :
    φ.Since (as ++ [a]) := by
  cases φ with
  | free => trivial
  | locked c d => trivial
  | cleared c d => exact RunsSince.silent h ha
  | sent c d => exact RunsSince.silent h ha
  | serving c d => exact RunsSince.silent h ha
  | acked c d => exact RunsSince.silent h ha

/-- A silent step that leaves what the phase speaks about leaves the phase. -/
theorem Agrees.silent {a : Action C} (h : Agrees φ as s) (ha : a.Silent)
    (hlock : t.lock = s.lock) (hholder : ∀ c, (t.pc c).Critical → (s.pc c).Critical)
    (hat : φ.At t) (hpending : t.pending = s.pending)
    (hserving : ∀ c, t.handler c = .entered ↔ s.handler c = .entered) :
    Agrees φ (as ++ [a]) t := by
  refine ⟨hlock.trans h.lock, fun c hc => h.holder c (hholder c hc), hat, ?_, ?_,
    h.tally.silent ha, h.since.silent ha⟩
  · intro c
    rw [hpending]
    exact h.pending c
  · intro c
    exact (hserving c).trans (h.serving c)

omit [DecidableEq C] in
theorem Phase.At.congr (hat : φ.At s) (hpc : t.pc = s.pc) (hdone : t.ipiDone = s.ipiDone) :
    φ.At t := by
  cases φ with
  | free => trivial
  | _ =>
    simp only [Phase.At, hpc, hdone]
    exact hat

/-- The phase does not speak about processors outside the critical section. -/
theorem Phase.At.update_pc (hat : φ.At s) (hc : ¬ (s.pc c).Critical) (p : Pc C) :
    φ.At { s with pc := update s.pc c p } := by
  have hne : ∀ e, (s.pc e).Critical → update s.pc c p e = s.pc e := by
    intro e he
    refine update_of_ne ?_ _ _
    intro hec
    exact hc (hec ▸ he)
  cases φ with
  | free => trivial
  | locked e d =>
    have hpc : s.pc e = .clear d := hat
    exact (hne e (by rw [hpc]; trivial)).trans hpc
  | cleared e d => exact ⟨(hne e (by rw [hat.1]; trivial)).trans hat.1, hat.2⟩
  | sent e d => exact ⟨(hne e (by rw [hat.1]; trivial)).trans hat.1, hat.2⟩
  | serving e d => exact ⟨(hne e (by rw [hat.1]; trivial)).trans hat.1, hat.2⟩
  | acked e d =>
    refine ⟨?_, hat.2⟩
    rcases hat.1 with hpc | hpc
    · exact Or.inl ((hne e (by rw [hpc]; trivial)).trans hpc)
    · exact Or.inr ((hne e (by rw [hpc]; trivial)).trans hpc)

theorem agrees_call (h : Agrees φ as s) (hstep : Step s (.call c d) t) :
    Agrees φ (as ++ [.call c d]) t := by
  rcases hstep with ⟨_, hpc, _, rfl⟩
  have hout : ¬ (s.pc c).Critical := by
    rw [hpc]
    exact id
  refine h.silent trivial rfl ?_ (h.at_.update_pc hout _) rfl fun _ => Iff.rfl
  intro e he
  by_cases hec : e = c
  · subst hec
    simp [Pc.Critical] at he
  · simpa [update_of_ne hec] using he

/-- The winner of the test-and-set starts the cycle. -/
theorem agrees_testAndSet (h : Agrees φ as s) (hstep : Step s (.testAndSet c) t) :
    ∃ φ', Agrees φ' (as ++ [.testAndSet c]) t := by
  rcases hstep with ⟨_, d, hpc, rfl⟩
  cases hlock : s.lock with
  | true =>
    refine ⟨φ, h.silent trivial hlock.symm ?_ (h.at_.congr ?_ rfl) rfl fun _ => Iff.rfl⟩
    · exact fun _ hc => hc
    · rfl
  | false =>
    obtain rfl := h.phase_of_unlocked hlock
    have hnone : ∀ e, ¬ (s.pc e).Critical := fun e he => by simpa [Phase.holder] using h.holder e he
    refine ⟨.locked c d, rfl, ?_, ?_, h.pending, h.serving, h.tally.silent trivial, trivial⟩
    · intro e he
      by_cases hec : e = c
      · rw [hec]
        rfl
      · exact absurd (by simpa [update_of_ne hec] using he) (hnone e)
    · simp [Phase.At]

/-- The holder of the lock stays the only one in the critical section. -/
theorem Agrees.holder_update (h : Agrees φ as s) (hc : φ.holder = some c) (p : Pc C) :
    ∀ e, (update s.pc c p e).Critical → φ.holder = some e := by
  intro e he
  by_cases hec : e = c
  · rw [hec]
    exact hc
  · rw [update_of_ne hec] at he
    exact h.holder e he

theorem agrees_clear (h : Agrees φ as s) (hstep : Step s (.clear c) t) :
    ∃ φ', Agrees φ' (as ++ [.clear c]) t := by
  rcases hstep with ⟨_, d, hpc, rfl⟩
  obtain rfl := h.phase_of_clear hpc
  refine ⟨.cleared c d, h.lock, h.holder_update rfl _, ⟨by simp, rfl⟩, h.pending, h.serving, ?_, ?_⟩
  · exact h.tally.append rfl rfl rfl rfl
  · constructor <;> simp [sinceClear_clear]

theorem agrees_send (h : Agrees φ as s) (hstep : Step s (.send c) t) :
    ∃ φ', Agrees φ' (as ++ [.send c]) t := by
  rcases hstep with ⟨_, d, hpc, rfl⟩
  obtain rfl := h.phase_of_send hpc
  refine ⟨.sent c d, h.lock, h.holder_update rfl _, ⟨by simp, h.at_.2⟩, ?_, h.serving, ?_, ?_⟩
  · intro e
    have hnone : s.pending e = false := by
      have := h.pending e
      simpa [Phase.pendingAt] using this
    by_cases hed : e = d
    · simp [hed, Phase.pendingAt]
    · simp [update_of_ne hed, hnone, Phase.pendingAt, Ne.symm hed]
  · exact h.tally.append rfl rfl rfl rfl
  · exact RunsSince.append h.since (by simp) (by simp) rfl (by simp) rfl

theorem agrees_read (h : Agrees φ as s) (hstep : Step s (.read c) t) :
    Agrees φ (as ++ [.read c]) t := by
  rcases hstep with ⟨_, d, hpc, rfl⟩
  cases hdone : s.ipiDone with
  | false =>
    exact h.silent trivial rfl (fun _ he => he) (h.at_.congr rfl hdone.symm) rfl fun _ => Iff.rfl
  | true =>
    obtain rfl := h.phase_of_done hpc hdone
    refine h.silent trivial rfl ?_ ⟨Or.inr (by simp), rfl⟩ rfl fun _ => Iff.rfl
    intro e he
    by_cases hec : e = c
    · rw [hec, hpc]
      trivial
    · simpa [update_of_ne hec] using he

theorem agrees_unlock (h : Agrees φ as s) (hstep : Step s (.unlock c) t) :
    ∃ φ', Agrees φ' (as ++ [.unlock c]) t := by
  rcases hstep with ⟨_, d, hpc, rfl⟩
  obtain rfl := h.phase_of_unlock hpc
  refine ⟨.free, rfl, ?_, trivial, h.pending, h.serving, ?_, trivial⟩
  · intro e he
    by_cases hec : e = c
    · subst hec
      simp [Pc.Critical] at he
    · have hcrit : (s.pc e).Critical := by simpa [update_of_ne hec] using he
      exact absurd (Option.some.inj (h.holder e hcrit)).symm hec
  · exact h.tally.append rfl rfl rfl rfl

theorem agrees_deliver (h : Agrees φ as s) (hstep : Step s (.deliver d) t) :
    ∃ φ', Agrees φ' (as ++ [.deliver d]) t := by
  rcases hstep with ⟨_, hpending, _, rfl⟩
  rcases h.phase_of_pending hpending with ⟨c, rfl⟩
  refine ⟨.serving c d, h.lock, h.holder, h.at_, ?_, ?_, ?_, ?_⟩
  · intro e
    have hd := h.pending e
    by_cases hed : e = d
    · simp [hed, Phase.pendingAt]
    · simp [update_of_ne hed, hd, Phase.pendingAt, Ne.symm hed]
  · intro e
    have hs := h.serving e
    by_cases hed : e = d
    · simp [hed, Phase.servingAt]
    · simp [update_of_ne hed, hs, Phase.servingAt, Ne.symm hed]
  · exact h.tally.append rfl rfl rfl rfl
  · exact RunsSince.append h.since (by simp) (by simp) rfl (by simp) rfl

theorem agrees_store (h : Agrees φ as s) (hstep : Step s (.store d) t) :
    ∃ φ', Agrees φ' (as ++ [.store d]) t := by
  rcases hstep with ⟨hentered, rfl⟩
  rcases h.phase_of_entered hentered with ⟨c, rfl⟩
  refine ⟨.acked c d, h.lock, h.holder, ⟨Or.inl h.at_.1, rfl⟩, h.pending, ?_, ?_, ?_⟩
  · intro e
    have hs := h.serving e
    by_cases hed : e = d
    · simp [hed, Phase.servingAt]
    · simp [update_of_ne hed, hs, Phase.servingAt, Ne.symm hed]
  · exact h.tally.append rfl rfl rfl rfl
  · exact RunsSince.append h.since (by simp) (by simp) rfl (by simp) rfl

/-- The end of a handler that has stored is no matter of the hand-shake. -/
theorem agrees_handler_end {a : Action C} (h : Agrees φ as s) (ha : a.Silent)
    (hd : s.handler d ≠ .entered) {p : Handler} (hp : p ≠ .entered) (inService : C → Bool) :
    Agrees φ (as ++ [a])
      { s with inService := inService, handler := update s.handler d p } := by
  refine h.silent ha rfl (fun _ he => he) (h.at_.congr rfl rfl) rfl fun e => ?_
  by_cases hed : e = d
  · simp [hed, hp, hd]
  · simp [update_of_ne hed]

/-- Every atomic step keeps the hand-shake in one of its phases. -/
theorem agrees_step {a : Action C} (h : Agrees φ as s) (hstep : Step s a t) :
    ∃ φ', Agrees φ' (as ++ [a]) t := by
  cases a with
  | call c d => exact ⟨φ, agrees_call h hstep⟩
  | testAndSet c => exact agrees_testAndSet h hstep
  | clear c => exact agrees_clear h hstep
  | send c => exact agrees_send h hstep
  | read c => exact ⟨φ, agrees_read h hstep⟩
  | unlock c => exact agrees_unlock h hstep
  | deliver c => exact agrees_deliver h hstep
  | store c => exact agrees_store h hstep
  | eoi c =>
    rcases hstep with ⟨hc, rfl⟩
    have ha : (Action.eoi c).Silent := trivial
    exact ⟨φ, agrees_handler_end h ha (by simp [hc]) (by simp) _⟩
  | iret c =>
    rcases hstep with ⟨hc, rfl⟩
    have ha : (Action.iret c).Silent := trivial
    exact ⟨φ, agrees_handler_end h ha (by simp [hc]) (by simp) s.inService⟩

end Steps

theorem agrees_run {as : List (Action C)} {s : State C} (hrun : Run (handshake C) as s) :
    ∃ φ, Agrees φ as s :=
  hrun.invariant (fun as s => ∃ φ, Agrees φ as s) (fun _ h => ⟨.free, agrees_init h⟩)
    fun _ _ _ _ h hstep => agrees_step h.choose_spec hstep

/-! ## The hand-shake -/

omit [DecidableEq C] in
/-- A handler run that no return stands against belongs to a call that waits
for it or has seen it. -/
theorem Phase.At.waiting {φ : Phase C} {s : State C} (hat : φ.At s) (hopen : φ.open_.1 = 1) :
    ∃ c target, s.pc c = .wait target ∨ s.pc c = .unlock target := by
  cases φ with
  | free => exact absurd hopen (by simp [Phase.open_])
  | locked c d => exact absurd hopen (by simp [Phase.open_])
  | cleared c d => exact absurd hopen (by simp [Phase.open_])
  | sent c d => exact ⟨c, d, Or.inl hat.1⟩
  | serving c d => exact ⟨c, d, Or.inl hat.1⟩
  | acked c d => exact ⟨c, d, hat.1⟩

omit [DecidableEq C] in
theorem Phase.open_cases (φ : Phase C) :
    φ.open_.2.1 ≤ φ.open_.1 ∧ φ.open_.2.2 ≤ φ.open_.2.1 ∧ φ.open_.1 ≤ 1 := by
  cases φ <;> simp [Phase.open_]

/-- In every run: when a call returns, the handler has run exactly once since
the call cleared the flag, and on the target of the call; at most one IPI is
not acknowledged; an IPI is never sent to a processor where one is pending;
and every handler run belongs to a call that has returned or to the one that
waits. -/
theorem ipi_handshake {as : List (Action C)} {s : State C} (hrun : Run (handshake C) as s) :
    (∀ c target t, s.pc c = .unlock target → (handshake C).Step s (.unlock c) t →
      RunsSince c target as 1 1) ∧
    (as.countP (·.isStore) ≤ as.countP (·.isSend) ∧
      as.countP (·.isSend) ≤ as.countP (·.isStore) + 1) ∧
    (∀ c target t, s.pc c = .send target → (handshake C).Step s (.send c) t →
      s.pending target = false) ∧
    (∀ runs, runs = as.countP (·.isDeliver) ∨ runs = as.countP (·.isStore) →
      runs = as.countP (·.isReturn) ∨
      runs = as.countP (·.isReturn) + 1 ∧
        ∃ c target, s.pc c = .wait target ∨ s.pc c = .unlock target) := by
  rcases agrees_run hrun with ⟨φ, h⟩
  have hsends := h.tally.sends
  have hdelivers := h.tally.delivers
  have hstores := h.tally.stores
  rcases φ.open_cases with ⟨h₁, h₂, h₃⟩
  refine ⟨?_, ⟨by omega, by omega⟩, ?_, ?_⟩
  · intro c target t hpc _
    obtain rfl := h.phase_of_unlock hpc
    exact h.since
  · intro c target t hpc _
    obtain rfl := h.phase_of_send hpc
    have hp := h.pending target
    simpa [Phase.pendingAt] using hp
  · intro runs hruns
    by_cases hopen : runs = as.countP (·.isReturn)
    · exact Or.inl hopen
    · exact Or.inr ⟨by omega, h.at_.waiting (by omega)⟩

/-- Two processors, and no call under way. -/
def quietState : State Bool :=
  ⟨false, false, fun _ => .idle, fun _ => .idle, fun _ => false, fun _ => false⟩

/-- The hand-shake of one call from `false` to `true`, up to its return. -/
theorem ipi_handshake_one_call :
    ∃ as s t, Run (handshake Bool) as s ∧ as.length = 7 ∧
      (handshake Bool).Step s (.unlock false) t ∧ RunsSince false true as 1 1 := by
  have hinit : (handshake Bool).Init quietState :=
    ⟨rfl, fun _ => ⟨rfl, rfl, rfl, rfl⟩⟩
  let s₁ : State Bool := { quietState with pc := update quietState.pc false (.lock true) }
  let s₂ : State Bool := { s₁ with lock := true, pc := update s₁.pc false (.clear true) }
  let s₃ : State Bool := { s₂ with ipiDone := false, pc := update s₂.pc false (.send true) }
  let s₄ : State Bool :=
    { s₃ with pending := update s₃.pending true true, pc := update s₃.pc false (.wait true) }
  let s₅ : State Bool :=
    { s₄ with
      pending := update s₄.pending true false
      inService := update s₄.inService true true
      handler := update s₄.handler true .entered }
  let s₆ : State Bool := { s₅ with ipiDone := true, handler := update s₅.handler true .stored }
  let s₇ : State Bool := { s₆ with pc := update s₆.pc false (.unlock true) }
  let s₈ : State Bool := { s₇ with lock := false, pc := update s₇.pc false .idle }
  have hcall : (handshake Bool).Step quietState (.call false true) s₁ := ⟨rfl, rfl, by decide, rfl⟩
  have hlock : (handshake Bool).Step s₁ (.testAndSet false) s₂ := ⟨rfl, true, rfl, rfl⟩
  have hclear : (handshake Bool).Step s₂ (.clear false) s₃ := ⟨rfl, true, rfl, rfl⟩
  have hsend : (handshake Bool).Step s₃ (.send false) s₄ := ⟨rfl, true, rfl, rfl⟩
  have hdeliver : (handshake Bool).Step s₄ (.deliver true) s₅ := ⟨rfl, rfl, rfl, rfl⟩
  have hstore : (handshake Bool).Step s₅ (.store true) s₆ := ⟨rfl, rfl⟩
  have hread : (handshake Bool).Step s₆ (.read false) s₇ := ⟨rfl, true, rfl, rfl⟩
  have hunlock : (handshake Bool).Step s₇ (.unlock false) s₈ := ⟨rfl, true, rfl, rfl⟩
  have hrun := Run.step (Run.step (Run.step (Run.step (Run.step (Run.step (Run.step
    (Run.init hinit) hcall) hlock) hclear) hsend) hdeliver) hstore) hread
  exact ⟨_, _, _, hrun, rfl, hunlock, (ipi_handshake hrun).1 false true _ rfl hunlock⟩

end HyperBench.Ipi

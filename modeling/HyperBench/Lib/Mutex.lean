import HyperBench.Lib.Transition
import Mathlib.Logic.Function.Basic
import Mathlib.Data.List.Basic
import Mathlib.Logic.Relation

/-!
# Code that runs under a lock

Some data is only touched by the code between a test-and-set and the store
that gives the lock back.  The code is any step relation on a local state and
the data, and the data may also change by itself, as a device does.

* `locked` is the system of any number of processors that call the code.
* `alone` is the same code when one call runs after the other.
* `serialises` says that every run of `locked` is a run of `alone`, with the
  calls in the order in which they got the lock.  So what holds of the data in
  every run of `alone` holds in every run of `locked`.
* `calls_eq` says that this order keeps the order of each processor.
* `exists_call` is a call that finds the lock free, and `exists_contended` are
  two calls of which the second one has to wait.
-/

namespace Mutex

open Transition Function

/-- The code that a lock protects.  `κ` is what a call is given, `ρ` where it
is, and `σ` the data. -/
structure Section (κ ρ σ : Type*) where
  start : κ → ρ
  Step : κ → ρ → σ → ρ → σ → Prop
  /-- The call is in front of the store that gives the lock back. -/
  Done : κ → ρ → Prop
  /-- The data changes by itself. -/
  Env : σ → σ → Prop

variable {π κ ρ σ : Type*} [DecidableEq π]

/-! ## The two systems -/

inductive Pc (κ ρ : Type*) where
  | idle
  /-- In front of the test-and-set. -/
  | trying (call : κ)
  | inside (call : κ) (pos : ρ)

structure State (π κ ρ σ : Type*) where
  lock : Bool
  pc : π → Pc κ ρ
  data : σ

inductive Action (π κ : Type*) where
  | call (p : π) (call : κ)
  /-- The test-and-set of a lock that is taken. -/
  | spin (p : π)
  | acquire (p : π) (call : κ)
  | run (p : π)
  | release (p : π)
  | env

def Step (sec : Section κ ρ σ) (s : State π κ ρ σ) : Action π κ → State π κ ρ σ → Prop
  | .call p k, t => s.pc p = .idle ∧ t = { s with pc := update s.pc p (.trying k) }
  | .spin p, t => s.lock = true ∧ (∃ k, s.pc p = .trying k) ∧ t = { s with lock := true }
  | .acquire p k, t => s.lock = false ∧ s.pc p = .trying k ∧
      t = { s with lock := true, pc := update s.pc p (.inside k (sec.start k)) }
  | .run p, t => ∃ k r r' d, s.pc p = .inside k r ∧ sec.Step k r s.data r' d ∧
      t = { s with pc := update s.pc p (.inside k r'), data := d }
  | .release p, t => ∃ k r, s.pc p = .inside k r ∧ sec.Done k r ∧
      t = { s with lock := false, pc := update s.pc p .idle }
  | .env, t => ∃ d, sec.Env s.data d ∧ t = { s with data := d }

def locked (π : Type*) [DecidableEq π] (sec : Section κ ρ σ) (Init : σ → Prop) :
    System (State π κ ρ σ) (Action π κ) where
  Init s := s.lock = false ∧ (∀ p, s.pc p = .idle) ∧ Init s.data
  Step := Step sec

structure Alone (κ ρ σ : Type*) where
  current : Option (κ × ρ)
  data : σ

inductive AloneAction (κ : Type*) where
  | enter (call : κ)
  | run
  | leave
  | env

inductive AloneStep (sec : Section κ ρ σ) : Alone κ ρ σ → AloneAction κ → Alone κ ρ σ → Prop where
  | enter {d} (k : κ) : AloneStep sec ⟨none, d⟩ (.enter k) ⟨some (k, sec.start k), d⟩
  | run {k r r' d d'} (h : sec.Step k r d r' d') :
      AloneStep sec ⟨some (k, r), d⟩ .run ⟨some (k, r'), d'⟩
  | leave {k r d} (h : sec.Done k r) : AloneStep sec ⟨some (k, r), d⟩ .leave ⟨none, d⟩
  | env {c d d'} (h : sec.Env d d') : AloneStep sec ⟨c, d⟩ .env ⟨c, d'⟩

def alone (sec : Section κ ρ σ) (Init : σ → Prop) : System (Alone κ ρ σ) (AloneAction κ) where
  Init s := s.current = none ∧ Init s.data
  Step := AloneStep sec

/-! ## Runs under the lock are runs of one call after the other -/

/-- What is left of an action when the processors are forgotten. -/
def Action.serial : Action π κ → Option (AloneAction κ)
  | .call _ _ | .spin _ => none
  | .acquire _ k => some (.enter k)
  | .run _ => some .run
  | .release _ => some .leave
  | .env => some .env

/-- The run of the one system, as a run of the other. -/
structure Serial (sec : Section κ ρ σ) (Init : σ → Prop) (as : List (Action π κ))
    (s : State π κ ρ σ) (c : Option (κ × ρ)) : Prop where
  run : Run (alone sec Init) (as.filterMap Action.serial) ⟨c, s.data⟩
  lock : s.lock = c.isSome
  inside : ∀ p k r, s.pc p = .inside k r → c = some (k, r)
  holder : ∀ k r, c = some (k, r) → ∃ p, s.pc p = .inside k r
  unique : ∀ p q k r k' r', s.pc p = .inside k r → s.pc q = .inside k' r' → p = q

variable {sec : Section κ ρ σ} {Init : σ → Prop} {as : List (Action π κ)} {s t : State π κ ρ σ}
  {c : Option (κ × ρ)}

namespace Serial

omit [DecidableEq π] in
theorem none_of_unlocked (h : Serial sec Init as s c) (hlock : s.lock = false) : c = none := by
  rw [h.lock] at hlock
  simpa using hlock

omit [DecidableEq π] in
theorem run_silent {a : Action π κ} (h : Serial sec Init as s c) (ha : a.serial = none) :
    Run (alone sec Init) ((as ++ [a]).filterMap Action.serial) ⟨c, s.data⟩ := by
  rw [List.filterMap_append, List.filterMap_cons_none ha, List.filterMap_nil, List.append_nil]
  exact h.run

/-- The processors outside the section matter only through the lock. -/
theorem inside_update (h : Serial sec Init as s c) (p : π) (pc : Pc κ ρ) (c' : Option (κ × ρ))
    (hpc : ∀ k r, pc = .inside k r → c' = some (k, r))
    (hother : ∀ q k r, q ≠ p → s.pc q = .inside k r → c' = c ∧ ∀ k r, pc ≠ .inside k r) :
    (∀ q k r, update s.pc p pc q = .inside k r → c' = some (k, r)) ∧
    ∀ q q' k r k' r', update s.pc p pc q = .inside k r → update s.pc p pc q' = .inside k' r' →
      q = q' := by
  refine ⟨fun q k r hq => ?_, fun q q' k r k' r' hq hq' => ?_⟩
  · by_cases hqp : q = p
    · subst hqp
      rw [update_self] at hq
      exact hpc k r hq
    · rw [update_of_ne hqp] at hq
      rw [(hother q k r hqp hq).1]
      exact h.inside q k r hq
  · by_cases hqp : q = p <;> by_cases hqp' : q' = p
    · rw [hqp, hqp']
    · subst hqp
      rw [update_self] at hq
      rw [update_of_ne hqp'] at hq'
      exact absurd hq ((hother q' k' r' hqp' hq').2 k r)
    · subst hqp'
      rw [update_self] at hq'
      rw [update_of_ne hqp] at hq
      exact absurd hq' ((hother q k r hqp hq).2 k' r')
    · rw [update_of_ne hqp] at hq
      rw [update_of_ne hqp'] at hq'
      exact h.unique q q' k r k' r' hq hq'

theorem step {a : Action π κ} (h : Serial sec Init as s c) (hstep : Step sec s a t) :
    ∃ c', Serial sec Init (as ++ [a]) t c' := by
  cases a with
  | call p k =>
    rcases hstep with ⟨hidle, rfl⟩
    obtain ⟨h₁, h₂⟩ := h.inside_update p (.trying k) c (by simp)
      fun q _ _ _ _ => ⟨rfl, by simp⟩
    refine ⟨c, h.run_silent rfl, h.lock, h₁, fun k r hc => ?_, h₂⟩
    obtain ⟨q, hq⟩ := h.holder k r hc
    have hqp : q ≠ p := fun he => absurd (hidle.symm.trans (he ▸ hq)) (by simp)
    exact ⟨q, (update_of_ne hqp _ _).trans hq⟩
  | spin p =>
    rcases hstep with ⟨hlock, _, rfl⟩
    exact ⟨c, h.run_silent rfl, hlock ▸ h.lock, h.inside, h.holder, h.unique⟩
  | acquire p k =>
    rcases hstep with ⟨hlock, _, rfl⟩
    obtain rfl := h.none_of_unlocked hlock
    obtain ⟨h₁, h₂⟩ := h.inside_update p (.inside k (sec.start k))
      (some (k, sec.start k)) (by simp) fun q k' r' _ hq => absurd (h.inside q k' r' hq) (by simp)
    refine ⟨some (k, sec.start k), ?_, rfl, h₁, ?_, h₂⟩
    · rw [List.filterMap_append]
      exact h.run.step (.enter k)
    · rintro _ _ ⟨⟩
      exact ⟨p, update_self _ _ _⟩
  | run p =>
    obtain ⟨k, r, r', d, hp, hsec, rfl⟩ := hstep
    obtain rfl := h.inside p k r hp
    obtain ⟨h₁, h₂⟩ := h.inside_update p (.inside k r') (some (k, r')) (by simp)
      fun q k' r' hne hq => absurd (h.unique q p _ _ _ _ hq hp) hne
    refine ⟨some (k, r'), ?_, h.lock, h₁, ?_, h₂⟩
    · rw [List.filterMap_append]
      exact h.run.step (.run hsec)
    · rintro _ _ ⟨⟩
      exact ⟨p, update_self _ _ _⟩
  | release p =>
    obtain ⟨k, r, hp, hdone, rfl⟩ := hstep
    obtain rfl := h.inside p k r hp
    obtain ⟨h₁, h₂⟩ := h.inside_update p .idle none (by simp)
      fun q k' r' hne hq => absurd (h.unique q p _ _ _ _ hq hp) hne
    refine ⟨none, ?_, rfl, h₁, by simp, h₂⟩
    rw [List.filterMap_append]
    exact h.run.step (.leave hdone)
  | env =>
    obtain ⟨d, henv, rfl⟩ := hstep
    refine ⟨c, ?_, h.lock, h.inside, h.holder, h.unique⟩
    rw [List.filterMap_append]
    exact h.run.step (.env henv)

end Serial

/-- Every run under the lock is a run of one call after the other. -/
theorem serialises (hrun : Run (locked π sec Init) as s) : ∃ c, Serial sec Init as s c := by
  refine hrun.invariant (fun as s => ∃ c, Serial sec Init as s c) ?_ ?_
  · intro s hinit
    refine ⟨none, .init ⟨rfl, hinit.2.2⟩, hinit.1, ?_, by simp, ?_⟩
    · intro p k r hp
      rw [hinit.2.1 p] at hp
      exact absurd hp (by simp)
    · intro p q k r k' r' hp
      rw [hinit.2.1 p] at hp
      exact absurd hp (by simp)
  · rintro as s a t ⟨c, h⟩ hstep
    exact h.step hstep

/-! ## The order of the calls -/

def AloneAction.entry : AloneAction κ → Option κ
  | .enter k => some k
  | _ => none

/-- The calls in the order in which they got the lock. -/
def entered (as : List (AloneAction κ)) : List κ := as.filterMap AloneAction.entry

@[simp] theorem entered_enter (as : List (AloneAction κ)) (k : κ) :
    entered (as ++ [.enter k]) = entered as ++ [k] := List.filterMap_append

theorem entered_silent {a : AloneAction κ} (ha : a.entry = none) (as : List (AloneAction κ)) :
    entered (as ++ [a]) = entered as := by
  rw [entered, List.filterMap_append, List.filterMap_cons_none ha, List.filterMap_nil,
    List.append_nil, ← entered]

def Action.acquisition : Action π κ → Option (π × κ)
  | .acquire p k => some (p, k)
  | _ => none

/-- The calls that got the lock, with the processors that made them. -/
def acquired (as : List (Action π κ)) : List (π × κ) := as.filterMap Action.acquisition

def Action.callOf (p : π) : Action π κ → Option κ
  | .call q k => if q = p then some k else none
  | _ => none

/-- The calls that a processor has made. -/
def calls (p : π) (as : List (Action π κ)) : List κ := as.filterMap (Action.callOf p)

omit [DecidableEq π] in
theorem entered_serial (as : List (Action π κ)) :
    entered (as.filterMap Action.serial) = (acquired as).map (·.2) := by
  rw [entered, acquired, List.filterMap_filterMap, List.map_filterMap]
  congr 1
  funext a
  cases a <;> rfl

/-- The call that a processor still tries to make. -/
def Pc.waiting : Pc κ ρ → List κ
  | .trying k => [k]
  | _ => []

/-- A processor gets the lock for its calls in the order in which it makes
them. -/
theorem calls_eq (hrun : Run (locked π sec Init) as s) (p : π) :
    calls p as = ((acquired as).filter (·.1 = p)).map (·.2) ++ (s.pc p).waiting := by
  refine hrun.invariant (fun as s =>
    calls p as = ((acquired as).filter (·.1 = p)).map (·.2) ++ (s.pc p).waiting) ?_ ?_
  · intro s hinit
    rw [hinit.2.1 p]
    rfl
  · intro as s a t h hstep
    rw [calls, acquired, List.filterMap_append, List.filterMap_append, List.filter_append,
      List.map_append, ← calls, ← acquired, h]
    cases a with
    | call q k =>
      rcases hstep with ⟨hidle, rfl⟩
      by_cases hq : q = p
      · subst hq
        simp [List.filterMap_cons, Action.callOf, Action.acquisition, Pc.waiting, hidle]
      · simp [List.filterMap_cons, Action.callOf, Action.acquisition, hq, update_of_ne (Ne.symm hq)]
    | spin q =>
      rcases hstep with ⟨_, _, rfl⟩
      simp [List.filterMap_cons, Action.callOf, Action.acquisition]
    | acquire q k =>
      rcases hstep with ⟨_, htrying, rfl⟩
      by_cases hq : q = p
      · subst hq
        simp [List.filterMap_cons, Action.callOf, Action.acquisition, Pc.waiting, htrying]
      · simp [List.filterMap_cons, Action.callOf, Action.acquisition, hq, update_of_ne (Ne.symm hq)]
    | run q =>
      obtain ⟨k, r, r', d, hinside, _, rfl⟩ := hstep
      by_cases hq : q = p
      · subst hq
        simp [List.filterMap_cons, Action.callOf, Action.acquisition, Pc.waiting, hinside]
      · simp [List.filterMap_cons, Action.callOf, Action.acquisition, update_of_ne (Ne.symm hq)]
    | release q =>
      obtain ⟨k, r, hinside, _, rfl⟩ := hstep
      by_cases hq : q = p
      · subst hq
        simp [List.filterMap_cons, Action.callOf, Action.acquisition, Pc.waiting, hinside]
      · simp [List.filterMap_cons, Action.callOf, Action.acquisition, update_of_ne (Ne.symm hq)]
    | env =>
      obtain ⟨d, _, rfl⟩ := hstep
      simp [List.filterMap_cons, Action.callOf, Action.acquisition]

/-! ## Calls that are given a list

The call works on its list element by element, and `done` is how many of them
it is through with. -/

section Lists

variable {α : Type*}

/-- The lists in the order in which their calls got the lock. -/
def messages (as : List (Action π (List α))) : List (List α) := (acquired as).map (·.2)

/-- The elements that the calls are through with: the lists in the order of the
lock, of the last one only a part while its call runs. -/
inductive Given (done : ρ → Nat) (as : List (Action π (List α))) (s : State π (List α) ρ σ) :
    List α → Prop where
  | idle (hlock : s.lock = false) : Given done as s (messages as).flatten
  | busy {p buf r earlier} (hp : s.pc p = .inside buf r)
      (hmessages : messages as = earlier ++ [buf]) :
      Given done as s (earlier.flatten ++ buf.take (done r))

omit [DecidableEq π] in
/-- What a run of one call after the other says about a run under the lock. -/
theorem Given.of_serial {sec : Section (List α) ρ σ} (done : ρ → Nat)
    {as : List (Action π (List α))} {s : State π (List α) ρ σ} {c : Option (List α × ρ)}
    (hserial : Serial sec Init as s c) {P : List α → Prop}
    (hidle : c = none → P (entered (as.filterMap Action.serial)).flatten)
    (hbusy : ∀ buf r, c = some (buf, r) → ∃ earlier,
      entered (as.filterMap Action.serial) = earlier ++ [buf] ∧
        P (earlier.flatten ++ buf.take (done r))) :
    ∃ given, Given done as s given ∧ P given := by
  have hlock := hserial.lock
  rw [entered_serial] at hidle hbusy
  cases c with
  | none => exact ⟨_, .idle hlock, hidle rfl⟩
  | some call =>
    obtain ⟨buf, r⟩ := call
    obtain ⟨p, hp⟩ := hserial.holder buf r rfl
    obtain ⟨earlier, hearlier, hP⟩ := hbusy buf r rfl
    exact ⟨_, .busy hp hearlier, hP⟩

end Lists

/-! ## Calls from start to end -/

/-- The steps of one call, and those of the data between them. -/
def Section.Steps (sec : Section κ ρ σ) (k : κ) : ρ × σ → ρ × σ → Prop :=
  Relation.ReflTransGen fun x y =>
    sec.Step k x.1 x.2 y.1 y.2 ∨ sec.Env x.2 y.2 ∧ y.1 = x.1

namespace Section.Steps

variable {k : κ} {x : ρ × σ} {r r' : ρ} {d d' : σ}

theorem step (h : sec.Steps k x (r, d)) (hstep : sec.Step k r d r' d') : sec.Steps k x (r', d') :=
  Relation.ReflTransGen.tail h (.inl hstep)

theorem env (h : sec.Steps k x (r, d)) (henv : sec.Env d d') : sec.Steps k x (r, d') :=
  Relation.ReflTransGen.tail h (.inr ⟨henv, rfl⟩)

end Section.Steps

omit [DecidableEq π] in
theorem acquired_append (as bs : List (Action π κ)) :
    acquired (as ++ bs) = acquired as ++ acquired bs := List.filterMap_append

/-- The steps of a processor that is inside. -/
theorem exists_inside (hrun : Run (locked π sec Init) as s) {p : π} {k : κ} {r : ρ}
    (hp : s.pc p = .inside k r) {x : ρ × σ} (hsteps : sec.Steps k (r, s.data) x) :
    ∃ bs, Run (locked π sec Init) (as ++ bs)
      { s with pc := update s.pc p (.inside k x.1), data := x.2 } ∧ acquired bs = [] := by
  induction hsteps with
  | refl =>
    refine ⟨[], ?_, rfl⟩
    rw [List.append_nil, ← hp, update_eq_self]
    exact hrun
  | tail _ hstep ih =>
    obtain ⟨bs, h, hbs⟩ := ih
    rcases hstep with hstep | ⟨henv, hpos⟩
    · have h := h.step (a := Action.run p) ⟨k, _, _, _, update_self _ _ _, hstep, rfl⟩
      rw [List.append_assoc, update_idem] at h
      exact ⟨_, h, by rw [acquired_append, hbs]; rfl⟩
    · have h := h.step (a := Action.env) ⟨_, henv, rfl⟩
      rw [List.append_assoc, ← hpos] at h
      exact ⟨_, h, by rw [acquired_append, hbs]; rfl⟩

/-- A processor that waits for the lock and finds it free can go through the
section. -/
theorem exists_pass (hrun : Run (locked π sec Init) as s) {p : π} {k : κ} {r : ρ} {d : σ}
    (hlock : s.lock = false) (hp : s.pc p = .trying k)
    (hsteps : sec.Steps k (sec.start k, s.data) (r, d)) (hdone : sec.Done k r) :
    ∃ bs, Run (locked π sec Init) (as ++ bs) ⟨false, update s.pc p .idle, d⟩ ∧
      acquired bs = [(p, k)] := by
  have h := hrun.step (a := Action.acquire p k) ⟨hlock, hp, rfl⟩
  obtain ⟨bs, h, hbs⟩ := exists_inside h (update_self _ _ _) hsteps
  have h := h.step (a := Action.release p) ⟨k, r, update_self _ _ _, hdone, rfl⟩
  rw [List.append_assoc, List.append_assoc, update_idem, update_idem] at h
  exact ⟨_, h, by rw [acquired_append, acquired_append, hbs]; rfl⟩

/-- A processor that finds the lock free can make its call. -/
theorem exists_call (hrun : Run (locked π sec Init) as s) {p : π} {k : κ} {r : ρ} {d : σ}
    (hlock : s.lock = false) (hidle : s.pc p = .idle)
    (hsteps : sec.Steps k (sec.start k, s.data) (r, d)) (hdone : sec.Done k r) :
    ∃ bs, Run (locked π sec Init) (as ++ bs) { s with data := d } ∧ acquired bs = [(p, k)] := by
  have h := hrun.step (a := Action.call p k) ⟨hidle, rfl⟩
  obtain ⟨bs, h, hbs⟩ := exists_pass h hlock (update_self _ _ _) hsteps hdone
  rw [List.append_assoc, update_idem, ← hidle, update_eq_self, ← hlock] at h
  exact ⟨_, h, by rw [acquired_append, hbs]; rfl⟩

/-- Two calls that overlap.  The second processor calls while the first one is
inside, and finds the lock taken. -/
theorem exists_contended (hrun : Run (locked π sec Init) as s) {p q : π} (hqp : q ≠ p)
    {k k' : κ} {r r' : ρ} {d d' : σ} (hlock : s.lock = false) (hidle : ∀ p, s.pc p = .idle)
    (hsteps : sec.Steps k (sec.start k, s.data) (r, d)) (hdone : sec.Done k r)
    (hsteps' : sec.Steps k' (sec.start k', d) (r', d')) (hdone' : sec.Done k' r') :
    ∃ bs, Run (locked π sec Init) (as ++ bs) { s with data := d' } ∧
      acquired bs = [(p, k), (q, k')] ∧ .spin q ∈ bs := by
  have hcall := (hrun.step (a := Action.call p k) ⟨hidle p, rfl⟩).step (a := Action.acquire p k)
    ⟨hlock, update_self _ _ _, rfl⟩
  rw [update_idem] at hcall
  have hq : update s.pc p (.inside k (sec.start k)) q = .idle :=
    (update_of_ne hqp _ _).trans (hidle q)
  have hspin := (hcall.step (a := Action.call q k') ⟨hq, rfl⟩).step (a := Action.spin q)
    ⟨rfl, ⟨k', update_self _ _ _⟩, rfl⟩
  obtain ⟨bs, hbs, hacq⟩ := exists_inside hspin
    ((update_of_ne (Ne.symm hqp) _ _).trans (update_self _ _ _)) hsteps
  have hfree := hbs.step (a := Action.release p) ⟨k, r, update_self _ _ _, hdone, rfl⟩
  rw [update_idem] at hfree
  obtain ⟨cs, hcs, hacq'⟩ := exists_pass hfree rfl
    ((update_of_ne hqp _ _).trans (update_self _ _ _)) hsteps' hdone'
  have hpc : ∀ f g : Pc κ ρ, update (update (update (update s.pc p f) q g) p .idle) q .idle
      = s.pc := by
    intro f g
    funext x
    rw [hidle x]
    by_cases hx : x = q
    · rw [hx, update_self]
    · rw [update_of_ne hx, update_apply, update_of_ne hx, update_apply, hidle x]
      split <;> rfl
  rw [hpc, ← hlock] at hcs
  simp only [List.append_assoc] at hcs
  refine ⟨_, hcs, ?_, by simp⟩
  simp only [acquired_append, hacq, hacq']
  rfl

end Mutex

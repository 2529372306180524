import Mathlib.Logic.Function.Iterate

/-!
# Loops of imperative code

The loop forms, and the rules that their users apply.

* `forUpTo f n` is the counted loop: it runs the body `f i` for `i` from `0`
  up to `n - 1`.
* `whileFuel cond body fuel` is the open loop.  It answers `none` when
  `fuel` rounds were not enough, so a loop that is never left answers
  `none` at every fuel.
* `forUpToM f n` is the counted loop with a body that can fail.

`forUpToM_rule` and `foldlM_simulates` show that a loop does not fail, the
second one with an abstract loop over the same list beside it.
`forUpTo_rule` and `whileFuel_inv` are the invariant rules, the second one for
a loop that is known to have answered.  The exact results are
`whileFuel_eq_iterate`, for a loop whose number of rounds is known, and
`whileFuel_eq_none`, for a loop that is never left.
-/

namespace Loop

variable {σ : Type*}

/-! ## The counted loop -/

/-- `for (i = 0; i < n; i++) s = f i s`. -/
def forUpTo (f : Nat → σ → σ) : Nat → σ → σ
  | 0, s => s
  | n + 1, s => f n (forUpTo f n s)

theorem forUpTo_succ (f : Nat → σ → σ) (n : Nat) (s : σ) :
    forUpTo f (n + 1) s = f n (forUpTo f n s) := rfl

/-- The invariant rule of the counted loop. -/
theorem forUpTo_rule {f : Nat → σ → σ} (Inv : Nat → σ → Prop) {n : Nat} {s : σ}
    (hinit : Inv 0 s) (hstep : ∀ i t, i < n → Inv i t → Inv (i + 1) (f i t)) :
    Inv n (forUpTo f n s) := by
  induction n with
  | zero => exact hinit
  | succ n ih =>
    rw [forUpTo_succ]
    refine hstep n _ (Nat.lt_succ_self n) (ih ?_)
    intro i t hi ht
    exact hstep i t (Nat.lt_succ_of_lt hi) ht

/-! ## The open loop -/

/-- `while (cond s) s = body s`, with at most `fuel` tests of the
condition. -/
def whileFuel (cond : σ → Bool) (body : σ → σ) : Nat → σ → Option σ
  | 0, _ => none
  | fuel + 1, s => if cond s then whileFuel cond body fuel (body s) else some s

variable {cond : σ → Bool} {body : σ → σ}

theorem whileFuel_of_false {s : σ} (hs : cond s = false) (fuel : Nat) :
    whileFuel cond body (fuel + 1) s = some s := by
  simp [whileFuel, hs]

theorem whileFuel_of_true {s : σ} (hs : cond s = true) (fuel : Nat) :
    whileFuel cond body (fuel + 1) s = whileFuel cond body fuel (body s) := by
  simp [whileFuel, hs]

/-- More fuel does not change an answer. -/
theorem whileFuel_mono {fuel fuel' : Nat} {s t : σ}
    (h : whileFuel cond body fuel s = some t) (hle : fuel ≤ fuel') :
    whileFuel cond body fuel' s = some t := by
  induction fuel generalizing fuel' s with
  | zero => simp [whileFuel] at h
  | succ fuel ih =>
    obtain ⟨k, rfl⟩ : ∃ k, fuel' = k + 1 := ⟨fuel' - 1, by omega⟩
    cases hs : cond s with
    | false =>
      rw [whileFuel_of_false hs] at h ⊢
      exact h
    | true =>
      rw [whileFuel_of_true hs] at h ⊢
      exact ih h (by omega)

/-- A loop that takes the branch `n` times and then stops has run its body
`n` times. -/
theorem whileFuel_eq_iterate {n fuel : Nat} {s : σ} (hfuel : n < fuel)
    (htrue : ∀ i, i < n → cond (body^[i] s) = true)
    (hfalse : cond (body^[n] s) = false) :
    whileFuel cond body fuel s = some (body^[n] s) := by
  induction n generalizing fuel s with
  | zero =>
    obtain ⟨k, rfl⟩ : ∃ k, fuel = k + 1 := ⟨fuel - 1, by omega⟩
    exact whileFuel_of_false hfalse k
  | succ n ih =>
    obtain ⟨k, rfl⟩ : ∃ k, fuel = k + 1 := ⟨fuel - 1, by omega⟩
    have hs : cond s = true := htrue 0 (Nat.zero_lt_succ n)
    rw [whileFuel_of_true hs, Function.iterate_succ_apply]
    refine ih (by omega) ?_ ?_
    · intro i hi
      rw [← Function.iterate_succ_apply]
      exact htrue (i + 1) (by omega)
    · rw [← Function.iterate_succ_apply]
      exact hfalse

/-- A loop whose condition holds after every number of rounds is never
left. -/
theorem whileFuel_eq_none {s : σ} (htrue : ∀ i, cond (body^[i] s) = true)
    (fuel : Nat) : whileFuel cond body fuel s = none := by
  induction fuel generalizing s with
  | zero => rfl
  | succ fuel ih =>
    have hs : cond s = true := htrue 0
    rw [whileFuel_of_true hs]
    refine ih fun i => ?_
    rw [← Function.iterate_succ_apply]
    exact htrue (i + 1)

/-- What the body keeps under the condition holds of the answer. -/
theorem whileFuel_inv (Inv : σ → Prop) {fuel : Nat} {s t : σ}
    (h : whileFuel cond body fuel s = some t) (hinit : Inv s)
    (hstep : ∀ u, Inv u → cond u = true → Inv (body u)) : Inv t := by
  induction fuel generalizing s with
  | zero => exact nomatch h
  | succ fuel ih =>
    cases hs : cond s with
    | false =>
      rw [whileFuel_of_false hs] at h
      obtain rfl : s = t := Option.some.inj h
      exact hinit
    | true =>
      rw [whileFuel_of_true hs] at h
      exact ih h (hstep s hinit hs)

/-- The loop has run its body `n` times from `s`, and is at `t`. -/
def Rounds (cond : σ → Bool) (body : σ → σ) (s : σ) (n : Nat) (t : σ) : Prop :=
  (∀ i, i < n → cond (body^[i] s) = true) ∧ t = body^[n] s

/-- An answer is the state behind some number of rounds. -/
theorem rounds_of_whileFuel {fuel : Nat} {s t : σ} (h : whileFuel cond body fuel s = some t) :
    ∃ n, Rounds cond body s n t ∧ cond t = false := by
  induction fuel generalizing s with
  | zero => exact nomatch h
  | succ fuel ih =>
    cases hs : cond s with
    | false =>
      rw [whileFuel_of_false hs] at h
      obtain rfl : s = t := Option.some.inj h
      exact ⟨0, ⟨fun i hi => absurd hi (Nat.not_lt_zero i), rfl⟩, hs⟩
    | true =>
      rw [whileFuel_of_true hs] at h
      obtain ⟨n, ⟨htrue, rfl⟩, hfalse⟩ := ih h
      refine ⟨n + 1, ⟨fun i hi => ?_, rfl⟩, hfalse⟩
      cases i with
      | zero => exact hs
      | succ i => exact htrue i (by omega)

/-! ## Loops that can fail -/

/-- `for (i = 0; i < n; i++) s = f i s`, with a body that can fail. -/
def forUpToM (f : Nat → σ → Option σ) : Nat → σ → Option σ
  | 0, s => some s
  | n + 1, s => (forUpToM f n s).bind (f n)

/-- The invariant rule for total correctness. -/
theorem forUpToM_rule {f : Nat → σ → Option σ} (Inv : Nat → σ → Prop) {n : Nat} {s : σ}
    (hinit : Inv 0 s) (hstep : ∀ i t, i < n → Inv i t → ∃ t', f i t = some t' ∧ Inv (i + 1) t') :
    ∃ t, forUpToM f n s = some t ∧ Inv n t := by
  induction n with
  | zero => exact ⟨s, rfl, hinit⟩
  | succ n ih =>
    obtain ⟨t, ht, hinv⟩ := ih fun i t hi => hstep i t (Nat.lt_succ_of_lt hi)
    obtain ⟨t', ht', hinv'⟩ := hstep n t (Nat.lt_succ_self n) hinv
    refine ⟨t', ?_, hinv'⟩
    rw [forUpToM, ht, Option.bind_some, ht']

/-- A loop over a list that keeps up with an abstract one. -/
theorem foldlM_simulates {τ α : Type*} {f : σ → α → Option σ} {g : τ → α → τ} (R : σ → τ → Prop)
    {l : List α} (hstep : ∀ s t a, a ∈ l → R s t → ∃ s', f s a = some s' ∧ R s' (g t a))
    {s : σ} {t : τ} (h : R s t) : ∃ s', l.foldlM f s = some s' ∧ R s' (l.foldl g t) := by
  induction l generalizing s t with
  | nil => exact ⟨s, rfl, h⟩
  | cons a l ih =>
    obtain ⟨mid, hmid, hR⟩ := hstep s t a List.mem_cons_self h
    obtain ⟨s', hs', hR'⟩ := ih (fun s t b hb => hstep s t b (List.mem_cons_of_mem a hb)) hR
    refine ⟨s', ?_, hR'⟩
    rw [List.foldlM_cons, hmid]
    exact hs'

end Loop

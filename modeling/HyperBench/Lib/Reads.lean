import HyperBench.Lib.ByteMem
import HyperBench.Lib.Loop

/-!
# Computations that read memory

`Reads α` is a computation over a memory that it does not change.  It gives
an answer and the addresses that it read, oldest first.  `val` is the answer
alone: the `val_` lemmas compute it without the addresses, and
`val_whileFuel` leads a loop back to the loop of `Loop`.  `addrs` are the
addresses alone, and `mem_addrs_whileFuel` says which ones a loop reads.
-/

namespace ByteMem

/-- An answer, and the addresses that were read for it. -/
def Reads (α : Type) : Type := Mem → α × List Nat

namespace Reads

variable {α β σ : Type}

instance : Monad Reads where
  pure a := fun _ => (a, [])
  bind x f := fun m => ((f (x m).1 m).1, (x m).2 ++ (f (x m).1 m).2)

/-- The byte at `a`. -/
def byte (a : Nat) : Reads UInt8 := fun m => (m a, [a])

/-- The little-endian number in the `n` bytes at `a`. -/
def field (a n : Nat) : Reads Nat := fun m => (load m a n, List.range' a n)

/-- `for (i = 0; i < n; i++) s = f i s`. -/
def forUpTo (f : Nat → σ → Reads σ) : Nat → σ → Reads σ
  | 0, s => pure s
  | n + 1, s => do
    let t ← forUpTo f n s
    f n t

/-- `while (cond s) s = body s`, with at most `fuel` tests of the
condition. -/
def whileFuel (cond : σ → Bool) (body : σ → Reads σ) : Nat → σ → Reads (Option σ)
  | 0, _ => pure none
  | fuel + 1, s =>
    if cond s then do
      let t ← body s
      whileFuel cond body fuel t
    else pure (some s)

/-! ## The answer -/

def val (x : Reads α) (m : Mem) : α := (x m).1

@[simp] theorem val_pure (a : α) (m : Mem) : (pure a : Reads α).val m = a := rfl

@[simp] theorem val_bind (x : Reads α) (f : α → Reads β) (m : Mem) :
    (x >>= f).val m = (f (x.val m)).val m := rfl

@[simp] theorem val_byte (a : Nat) (m : Mem) : (byte a).val m = m a := rfl

@[simp] theorem val_field (a n : Nat) (m : Mem) : (field a n).val m = load m a n := rfl

@[simp] theorem val_ite (c : Prop) [Decidable c] (x y : Reads α) (m : Mem) :
    (if c then x else y).val m = if c then x.val m else y.val m := by
  split <;> rfl

theorem val_whileFuel (cond : σ → Bool) (body : σ → Reads σ) (fuel : Nat) (s : σ) (m : Mem) :
    (whileFuel cond body fuel s).val m = Loop.whileFuel cond (fun t => (body t).val m) fuel s := by
  induction fuel generalizing s with
  | zero => rfl
  | succ fuel ih =>
    rw [whileFuel, Loop.whileFuel, val_ite, val_bind, ih]
    rfl

/-! ## The addresses -/

def addrs (x : Reads α) (m : Mem) : List Nat := (x m).2

@[simp] theorem addrs_pure (a : α) (m : Mem) : (pure a : Reads α).addrs m = [] := rfl

@[simp] theorem addrs_bind (x : Reads α) (f : α → Reads β) (m : Mem) :
    (x >>= f).addrs m = x.addrs m ++ (f (x.val m)).addrs m := rfl

@[simp] theorem addrs_byte (a : Nat) (m : Mem) : (byte a).addrs m = [a] := rfl

@[simp] theorem addrs_ite (c : Prop) [Decidable c] (x y : Reads α) (m : Mem) :
    (if c then x else y).addrs m = if c then x.addrs m else y.addrs m := by
  split <;> rfl

/-- A loop reads what its rounds read. -/
theorem mem_addrs_whileFuel {cond : σ → Bool} {body : σ → Reads σ} {fuel : Nat} {s : σ} {m : Mem}
    {a : Nat} :
    a ∈ (whileFuel cond body fuel s).addrs m ↔
      ∃ i, i < fuel ∧ (∀ j, j ≤ i → cond ((fun t => (body t).val m)^[j] s) = true) ∧
        a ∈ (body ((fun t => (body t).val m)^[i] s)).addrs m := by
  induction fuel generalizing s with
  | zero => simp [whileFuel]
  | succ fuel ih =>
    rw [whileFuel, addrs_ite, addrs_bind]
    constructor
    · intro ha
      split at ha
      · rename_i hs
        rcases List.mem_append.1 ha with ha | ha
        · refine ⟨0, Nat.succ_pos fuel, fun j hj => ?_, ha⟩
          obtain rfl : j = 0 := Nat.le_zero.1 hj
          exact hs
        · obtain ⟨i, hi, hcond, ha⟩ := ih.1 ha
          refine ⟨i + 1, Nat.succ_lt_succ hi, fun j hj => ?_, ha⟩
          cases j with
          | zero => exact hs
          | succ j => exact hcond j (Nat.le_of_succ_le_succ hj)
      · cases ha
    · intro ha
      obtain ⟨i, hi, hcond, ha⟩ := ha
      have hs : cond s = true := hcond 0 (Nat.zero_le i)
      rw [if_pos hs, List.mem_append]
      cases i with
      | zero => exact Or.inl ha
      | succ i =>
        refine Or.inr (ih.2 ⟨i, Nat.lt_of_succ_lt_succ hi, fun j hj => ?_, ha⟩)
        exact hcond (j + 1) (Nat.succ_le_succ hj)

end Reads

end ByteMem

import HyperBench.Lib.Loop
import Mathlib.Data.UInt
import Mathlib.Order.Monotone.Basic

/-!
# The wait for the pinning of the processors

`harness_main` waits between its first line and the table until the time
stamp counter has advanced by 60000000000, in the build without
`__BARE_METAL`.  `currentcycles` of `rdtsc.h` reads the counter with the
constraint `"=A"`.  In 64-bit code this is one register and not the pair of
them, so the value is the low half or the high half of the counter.

* `rax_waiting_iff`: with the low halves the loop goes on exactly while the
  low half is not below the one of the first reading.  Otherwise the
  difference wraps around and is too large.
* `rdx_waiting`: with the high halves the loop never ends.
* `pin_wait_iff` says for which readings the loop is not left too early.
-/

namespace HyperBench.PinWait

open Loop

/-- The register that the compiler takes for `"=A"`. -/
inductive Register where
  | rax
  | rdx
  deriving DecidableEq, Repr

/-- `currentcycles`, when `RDTSC` finds the counter at `tsc`. -/
def currentcycles (register : Register) (tsc : UInt64) : UInt64 :=
  match register with
  | .rax => tsc &&& 0xffffffff
  | .rdx => tsc >>> 32

/-- The local variables of `harness_main`, and the number of times the counter
was read. -/
structure State where
  cycles1 : UInt64
  cycles2 : UInt64
  reads : Nat
  deriving DecidableEq, Repr

section Loop

variable (register : Register) (tsc : Nat → UInt64)

/-- `cycles2 = cycles1 = currentcycles()`. -/
def State.start : State :=
  ⟨currentcycles register (tsc 0), currentcycles register (tsc 0), 1⟩

/-- The condition of the loop. -/
def State.waiting (s : State) : Bool := s.cycles2 - s.cycles1 < 60000000000

/-- The body of the loop. -/
def State.next (s : State) : State :=
  { s with cycles2 := currentcycles register (tsc s.reads), reads := s.reads + 1 }

/-- The wait, where the `n`-th `RDTSC` finds the counter at `tsc n`. -/
def waitPinned (fuel : Nat) : Option State :=
  whileFuel State.waiting (State.next register tsc) fuel (State.start register tsc)

/-- The variables behind `n` rounds. -/
theorem iterate_next (n : Nat) :
    (State.next register tsc)^[n] (State.start register tsc)
      = ⟨currentcycles register (tsc 0), currentcycles register (tsc n), n + 1⟩ := by
  induction n with
  | zero => rfl
  | succ n ih =>
    rw [Function.iterate_succ_apply', ih]
    rfl

end Loop

/-! ## One reading against the first one -/

theorem toNat_rax (tsc : UInt64) : (currentcycles .rax tsc).toNat = tsc.toNat % 2 ^ 32 := by
  show (tsc &&& 0xffffffff).toNat = _
  rw [UInt64.toNat_and]
  exact Nat.and_two_pow_sub_one_eq_mod tsc.toNat 32

theorem toNat_rdx (tsc : UInt64) : (currentcycles .rdx tsc).toNat = tsc.toNat / 2 ^ 32 := by
  show (tsc >>> 32).toNat = _
  rw [UInt64.toNat_shiftRight]
  exact Nat.shiftRight_eq_div_pow tsc.toNat 32

/-- The unsigned difference of two halves is small exactly when it does not
wrap around. -/
theorem waiting_iff {a b : UInt64} (ha : a.toNat < 2 ^ 32) (hb : b.toNat < 2 ^ 32) (reads : Nat) :
    (State.mk a b reads).waiting = true ↔ a.toNat ≤ b.toNat := by
  have hlimit : (60000000000 : UInt64).toNat = 60000000000 := rfl
  show decide (b - a < 60000000000) = true ↔ _
  rw [decide_eq_true_iff, UInt64.lt_iff_toNat_lt, UInt64.toNat_sub, hlimit]
  omega

theorem rax_waiting_iff (first now : UInt64) (reads : Nat) :
    (State.mk (currentcycles .rax first) (currentcycles .rax now) reads).waiting = true ↔
      first.toNat % 2 ^ 32 ≤ now.toNat % 2 ^ 32 := by
  have hfirst := toNat_rax first
  have hnow := toNat_rax now
  rw [waiting_iff (by omega) (by omega), hfirst, hnow]

theorem rdx_waiting {first now : UInt64} (h : first.toNat ≤ now.toNat) (reads : Nat) :
    (State.mk (currentcycles .rdx first) (currentcycles .rdx now) reads).waiting = true := by
  have hfirst := toNat_rdx first
  have hnow := toNat_rdx now
  have hlt := first.toNat_lt
  have hlt' := now.toNat_lt
  rw [waiting_iff (by omega) (by omega)]
  omega

/-! ## The whole wait -/

theorem tsc_mono {tsc : Nat → UInt64} (hmono : ∀ i, tsc i ≤ tsc (i + 1)) {m n : Nat} (h : m ≤ n) :
    (tsc m).toNat ≤ (tsc n).toNat :=
  monotone_nat_of_le_succ (f := fun i => (tsc i).toNat)
    (fun i => UInt64.le_iff_toNat_le.1 (hmono i)) h

/-- With the high halves the loop is never left. -/
theorem waitPinned_rdx {tsc : Nat → UInt64} (hmono : ∀ i, tsc i ≤ tsc (i + 1)) (fuel : Nat) :
    waitPinned .rdx tsc fuel = none := by
  refine whileFuel_eq_none (fun n => ?_) fuel
  rw [iterate_next]
  exact rdx_waiting (tsc_mono hmono (Nat.zero_le n)) (n + 1)

/-- With the low halves the loop is left at the first reading whose low half is
below the one of the first reading. -/
theorem waitPinned_rax {tsc : Nat → UInt64} {fuel : Nat} {s : State}
    (h : waitPinned .rax tsc fuel = some s) :
    ∃ n, s.reads = n + 1 ∧ (tsc n).toNat % 2 ^ 32 < (tsc 0).toNat % 2 ^ 32 := by
  obtain ⟨n, hrounds, hleft⟩ := rounds_of_whileFuel h
  have hs := hrounds.2
  rw [iterate_next] at hs
  refine ⟨n, by rw [hs], ?_⟩
  by_contra hle
  rw [hs, (rax_waiting_iff (tsc 0) (tsc n) (n + 1)).2 (Nat.le_of_not_lt hle)] at hleft
  cases hleft

theorem waitPinned_rax_left {tsc : Nat → UInt64} {n : Nat}
    (h : (tsc n).toNat % 2 ^ 32 < (tsc 0).toNat % 2 ^ 32) :
    ∃ m s, m ≤ n ∧ waitPinned .rax tsc (m + 1) = some s ∧ s.reads = m + 1 := by
  classical
  have hex : ∃ n, (tsc n).toNat % 2 ^ 32 < (tsc 0).toNat % 2 ^ 32 := ⟨n, h⟩
  have hfind := Nat.find_spec hex
  refine ⟨Nat.find hex, _, Nat.find_min' hex h, whileFuel_eq_iterate (Nat.lt_succ_self _) ?_ ?_, ?_⟩
  · intro i hi
    rw [iterate_next, rax_waiting_iff]
    exact Nat.le_of_not_lt (Nat.find_min hex hi)
  · rw [iterate_next, ← Bool.not_eq_true, rax_waiting_iff]
    exact Nat.not_le_of_lt hfind
  · rw [iterate_next]

/-- For every non-decreasing sequence of readings: the loop is left only when
the counter has advanced by 60000000000, if and only if the compiler has taken
`RDX`, with which it is never left, or no reading before that point has a
low half below the one of the first reading. -/
theorem pin_wait_iff (register : Register) (tsc : Nat → UInt64)
    (hmono : ∀ i, tsc i ≤ tsc (i + 1)) :
    (∀ fuel s, waitPinned register tsc fuel = some s →
      60000000000 ≤ (tsc (s.reads - 1)).toNat - (tsc 0).toNat) ↔
      register = .rdx ∨ ∀ n, (tsc n).toNat - (tsc 0).toNat < 60000000000 →
        (tsc 0).toNat % 2 ^ 32 ≤ (tsc n).toNat % 2 ^ 32 := by
  cases register with
  | rdx =>
    refine ⟨fun _ => .inl rfl, fun _ fuel s h => ?_⟩
    rw [waitPinned_rdx hmono] at h
    cases h
  | rax =>
    constructor
    · intro h
      refine .inr fun n hearly => Nat.le_of_not_lt fun hlow => ?_
      -- the loop is left at this reading or before it
      obtain ⟨m, s, hm, hleft, hreads⟩ := waitPinned_rax_left hlow
      have hlate := h (m + 1) s hleft
      have hle := tsc_mono hmono hm
      rw [hreads, Nat.add_sub_cancel] at hlate
      omega
    · rintro (hreg | hlow) fuel s h
      · cases hreg
      · obtain ⟨n, hreads, hbelow⟩ := waitPinned_rax h
        rw [hreads, Nat.add_sub_cancel]
        by_contra hearly
        have hle := hlow n (Nat.lt_of_not_le hearly)
        omega

/-- A counter that jumps to a value behind the wait, with a smaller low
half. -/
def jump (n : Nat) : UInt64 := if n = 0 then 5 else 60129542144

theorem pin_wait_jump :
    waitPinned .rax jump 2 = some ⟨5, 0, 2⟩ ∧ 60000000000 ≤ (jump 1).toNat - (jump 0).toNat := by
  have hmono : ∀ i, jump i ≤ jump (i + 1) := by
    intro i
    cases i with
    | zero => decide
    | succ i => exact UInt64.le_refl _
  have hlow : ∀ n, (jump n).toNat - (jump 0).toNat < 60000000000 →
      (jump 0).toNat % 2 ^ 32 ≤ (jump n).toNat % 2 ^ 32 := by
    intro n
    cases n with
    | zero => exact fun _ => Nat.le_refl _
    | succ n =>
      have hlate : ¬ (60129542144 : UInt64).toNat - (5 : UInt64).toNat < 60000000000 := by decide
      exact fun h => absurd h hlate
  have hleft : waitPinned .rax jump 2 = some ⟨5, 0, 2⟩ := by decide
  exact ⟨hleft, (pin_wait_iff .rax jump hmono).2 (.inr hlow) 2 _ hleft⟩

/-- A counter whose low half wraps around between two readings. -/
def carry (n : Nat) : UInt64 := if n = 0 then 0xffffffff else 0x100000000

/-- The loop is left when the counter has advanced by 1. -/
theorem pin_wait_carry :
    (∀ i, carry i ≤ carry (i + 1)) ∧
      waitPinned .rax carry 2 = some ⟨0xffffffff, 0, 2⟩ ∧
      (carry 1).toNat - (carry 0).toNat = 1 := by
  refine ⟨fun i => ?_, by decide, by decide⟩
  cases i with
  | zero => decide
  | succ i => exact UInt64.le_refl _

end HyperBench.PinWait

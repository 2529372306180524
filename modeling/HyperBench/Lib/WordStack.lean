import Mathlib.Data.UInt
import Mathlib.Logic.Function.Basic

/-!
# Words in memory

A memory of 8-byte words, of which all accesses lie a multiple of 8 bytes
apart.  Addresses are 64-bit numbers and wrap around.

`Holds m a ws` says that the words `ws` lie in `m` from `a` upwards.  A stack
that grows downwards is such a list with its top in front:

* `Holds.push` puts a word below,
* `Holds.drop` takes words away,
* `Holds.set` overwrites one of them.
-/

namespace WordStack

abbrev Mem := UInt64 → UInt64

/-- The `k`-th word from `a` on. -/
def word (m : Mem) (a : UInt64) (k : Nat) : UInt64 := m (a + UInt64.ofNat (8 * k))

/-- The memory with the `k`-th word from `a` on overwritten. -/
def setWord (m : Mem) (a : UInt64) (k : Nat) (v : UInt64) : Mem :=
  Function.update m (a + UInt64.ofNat (8 * k)) v

def Holds (m : Mem) (a : UInt64) (ws : List UInt64) : Prop :=
  ∀ k w, ws[k]? = some w → word m a k = w

theorem holds_nil (m : Mem) (a : UInt64) : Holds m a [] := by
  intro k w h
  rw [List.getElem?_nil] at h
  cases h

/-- Two words of one block that are not too far apart are different. -/
theorem offset_inj {a : UInt64} {j k : Nat} (hj : j < 2 ^ 61) (hk : k < 2 ^ 61)
    (h : a + UInt64.ofNat (8 * j) = a + UInt64.ofNat (8 * k)) : j = k := by
  have hnat := congrArg UInt64.toNat h
  rw [UInt64.toNat_add, UInt64.toNat_add, UInt64.toNat_ofNat', UInt64.toNat_ofNat'] at hnat
  have hlt := a.toNat_lt
  omega

theorem sub_add_offset (a : UInt64) (k : Nat) :
    a - 8 + UInt64.ofNat (8 * (k + 1)) = a + UInt64.ofNat (8 * k) := by
  apply UInt64.toNat.inj
  have hlt := a.toNat_lt
  have height : (8 : UInt64).toNat = 8 := rfl
  rw [UInt64.toNat_add, UInt64.toNat_add, UInt64.toNat_ofNat', UInt64.toNat_ofNat',
    UInt64.toNat_sub, height]
  omega

theorem add_zero_offset (a : UInt64) : a + UInt64.ofNat (8 * 0) = a := UInt64.add_zero a

theorem add_offset (a : UInt64) (j k : Nat) :
    a + UInt64.ofNat (8 * j) + UInt64.ofNat (8 * k) = a + UInt64.ofNat (8 * (j + k)) := by
  rw [UInt64.add_assoc, ← UInt64.ofNat_add, Nat.mul_add]

/-- A word below the others. -/
theorem Holds.push {m : Mem} {a : UInt64} {ws : List UInt64} (h : Holds m a ws)
    (hlen : ws.length < 2 ^ 60) (v : UInt64) :
    Holds (Function.update m (a - 8) v) (a - 8) (v :: ws) := by
  intro k w hk
  cases k with
  | zero =>
    rw [word, add_zero_offset, Function.update_self]
    exact Option.some.inj hk
  | succ k =>
    rw [List.getElem?_cons_succ] at hk
    have hlt := (List.getElem?_eq_some_iff.1 hk).1
    have hne : a - 8 + UInt64.ofNat (8 * (k + 1)) ≠ a - 8 + UInt64.ofNat (8 * 0) := by
      intro heq
      have := offset_inj (by omega) (by omega) heq
      omega
    rw [add_zero_offset] at hne
    rw [word, Function.update_of_ne hne, sub_add_offset]
    exact h k w hk

/-- The words behind the first `n` ones. -/
theorem Holds.drop {m : Mem} {a : UInt64} {ws : List UInt64} (h : Holds m a ws) (n : Nat) :
    Holds m (a + UInt64.ofNat (8 * n)) (ws.drop n) := by
  intro k w hk
  rw [List.getElem?_drop] at hk
  rw [word, add_offset]
  exact h (n + k) w hk

theorem Holds.set {m : Mem} {a : UInt64} {ws : List UInt64} (h : Holds m a ws)
    (hlen : ws.length < 2 ^ 60) {n : Nat} (hn : n < ws.length) (v : UInt64) :
    Holds (setWord m a n v) a (ws.set n v) := by
  intro k w hk
  have hlt : k < ws.length := by
    have hk' := (List.getElem?_eq_some_iff.1 hk).1
    rwa [List.length_set] at hk'
  by_cases hkn : k = n
  · subst hkn
    rw [List.getElem?_set_self hlt] at hk
    rw [word, setWord, Function.update_self]
    exact Option.some.inj hk
  · rw [List.getElem?_set_ne (Ne.symm hkn)] at hk
    rw [word, setWord, Function.update_of_ne]
    · exact h k w hk
    · intro heq
      exact hkn (offset_inj (by omega) (by omega) heq)

end WordStack

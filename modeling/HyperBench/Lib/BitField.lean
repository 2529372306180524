import Mathlib.Data.Nat.Bitwise

/-!
# Bit fields

A field of a number is a run of its bits, given by the first bit and the
width.  `extract` reads a field and `insert` writes one, as an assignment to a
bit field of a C structure does: the value is cut to the width, and the other
bits stay.

`testBit_extract` and `testBit_insert` say what happens to each bit, and the
other lemmas are read off them.
-/

namespace BitField

/-- The `w` bits of `n` from bit `s` on. -/
def extract (n s w : Nat) : Nat := n >>> s % 2 ^ w

/-- `n` with the low `w` bits of `v` from bit `s` on. -/
def insert (n s w v : Nat) : Nat :=
  n >>> (s + w) <<< (s + w) ||| (v % 2 ^ w) <<< s ||| n % 2 ^ s

variable {n s w v s' w' k : Nat}

theorem testBit_extract (n s w i : Nat) :
    (extract n s w).testBit i = (decide (i < w) && n.testBit (s + i)) := by
  rw [extract, Nat.testBit_mod_two_pow, Nat.testBit_shiftRight]

theorem testBit_insert (n s w v i : Nat) :
    (insert n s w v).testBit i
      = if s ≤ i ∧ i < s + w then v.testBit (i - s) else n.testBit i := by
  simp only [insert, Nat.testBit_or, Nat.testBit_shiftLeft, Nat.testBit_shiftRight,
    Nat.testBit_mod_two_pow]
  -- below the field, in it, and above it
  rcases Nat.lt_or_ge i s with hlow | hlow
  · have habove : ¬ s + w ≤ i := by omega
    have hbelow : ¬ s ≤ i := by omega
    simp [habove, hbelow, hlow]
  · rcases Nat.lt_or_ge i (s + w) with hhigh | hhigh
    · have habove : ¬ s + w ≤ i := by omega
      have hin : i - s < w := by omega
      have hlow' : ¬ i < s := by omega
      simp [hlow, hhigh, habove, hin, hlow']
    · have hin : ¬ i - s < w := by omega
      have hlow' : ¬ i < s := by omega
      have hback : s + w + (i - (s + w)) = i := by omega
      simp [hhigh, hin, hlow', hback]

theorem extract_lt (n s w : Nat) : extract n s w < 2 ^ w := Nat.mod_lt _ (Nat.two_pow_pos w)

theorem extract_insert_same (n s w v : Nat) : extract (insert n s w v) s w = v % 2 ^ w := by
  refine Nat.eq_of_testBit_eq fun i => ?_
  rw [testBit_extract, testBit_insert, Nat.testBit_mod_two_pow]
  by_cases hi : i < w
  · have hfield : s ≤ s + i ∧ s + i < s + w := by omega
    rw [if_pos hfield, Nat.add_sub_cancel_left]
  · rw [decide_eq_false hi, Bool.false_and, Bool.false_and]

theorem extract_insert_of_disjoint (h : s + w ≤ s' ∨ s' + w' ≤ s) (n v : Nat) :
    extract (insert n s w v) s' w' = extract n s' w' := by
  refine Nat.eq_of_testBit_eq fun i => ?_
  rw [testBit_extract, testBit_insert, testBit_extract]
  by_cases hi : i < w'
  · have hfield : ¬ (s ≤ s' + i ∧ s' + i < s + w) := by omega
    rw [if_neg hfield]
  · rw [decide_eq_false hi, Bool.false_and, Bool.false_and]

theorem insert_lt (hn : n < 2 ^ k) (h : s + w ≤ k) (v : Nat) : insert n s w v < 2 ^ k := by
  refine Nat.lt_pow_two_of_testBit _ fun i hi => ?_
  have hfield : ¬ (s ≤ i ∧ i < s + w) := by omega
  rw [testBit_insert, if_neg hfield]
  exact Nat.testBit_lt_two_pow (Nat.lt_of_lt_of_le hn (Nat.pow_le_pow_right (by decide) hi))

end BitField

import HyperBench.Lib.ByteMem

/-!
# `memmove` of `lib/string.c`

The two loops of `memmove` on a flat memory.  Pointers are 64-bit numbers, so
a step of a pointer is modulo `2 ^ 64`: behind the last byte of memory an end
pointer is 0, but it is not used any more.

`copyUp_eq` and `copyDown_eq` are the invariants.  In each direction the byte
that is read next has not been written yet, and what was written so far is a
`copy`.
-/

namespace HyperBench.Memmove

open ByteMem

/-- One byte on from `p`. -/
def nextByte (p : Nat) : Nat := (p + 1) % 2 ^ 64

/-- One byte back from `p`. -/
def prevByte (p : Nat) : Nat := if p = 0 then 2 ^ 64 - 1 else p - 1

/-- The last byte of a range, back from its end pointer. -/
theorem prevByte_succ {p : Nat} (h : p < 2 ^ 64) : prevByte ((p + 1) % 2 ^ 64) = p := by
  unfold prevByte
  split <;> omega

/-- `while (n--) *d++ = *s++`. -/
def copyUp : Nat → Mem → Nat → Nat → Mem
  | 0, m, _, _ => m
  | n + 1, m, d, s => copyUp n (setByte m d (m s)) (nextByte d) (nextByte s)

/-- `while (n--) *--d = *--s`. -/
def copyDown : Nat → Mem → Nat → Nat → Mem
  | 0, m, _, _ => m
  | n + 1, m, d, s =>
    copyDown n (setByte m (prevByte d) (m (prevByte s))) (prevByte d) (prevByte s)

/-- The answer of `memmove` and the memory behind it. -/
def memmove (m : Mem) (dest src n : Nat) : Nat × Mem :=
  if dest ≤ src then (dest, copyUp n m dest src)
  else (dest, copyDown n m ((dest + n) % 2 ^ 64) ((src + n) % 2 ^ 64))

/-- The upward loop behind its first `i` rounds. -/
theorem copyUp_eq {d s : Nat} (hle : d ≤ s) (m : Mem) (n i : Nat) (hd : d + i + n ≤ 2 ^ 64)
    (hs : s + i + n ≤ 2 ^ 64) :
    copyUp n (copy m d s i) ((d + i) % 2 ^ 64) ((s + i) % 2 ^ 64) = copy m d s (i + n) := by
  induction n generalizing i with
  | zero => rfl
  | succ n ih =>
    have hd' : (d + i) % 2 ^ 64 = d + i := Nat.mod_eq_of_lt (by omega)
    have hs' : (s + i) % 2 ^ 64 = s + i := Nat.mod_eq_of_lt (by omega)
    have hrest := ih (i + 1) (by omega) (by omega)
    rw [copyUp, hd', hs', setByte_copy_back hle, nextByte, nextByte, Nat.add_assoc, Nat.add_assoc,
      hrest, Nat.add_assoc, Nat.add_comm 1 n]

/-- The downward loop with `n` rounds to go and `k` bytes copied. -/
theorem copyDown_eq {d s : Nat} (hle : s ≤ d) (m : Mem) (n k : Nat) (hd : d + n ≤ 2 ^ 64)
    (hs : s + n ≤ 2 ^ 64) :
    copyDown n (copy m (d + n) (s + n) k) ((d + n) % 2 ^ 64) ((s + n) % 2 ^ 64)
      = copy m d s (n + k) := by
  induction n generalizing k with
  | zero => rw [Nat.zero_add]; rfl
  | succ n ih =>
    have hd' := prevByte_succ (p := d + n) (by omega)
    have hs' := prevByte_succ (p := s + n) (by omega)
    have hrest := ih (k + 1) (by omega) (by omega)
    have hmod : (d + n) % 2 ^ 64 = d + n := Nat.mod_eq_of_lt (by omega)
    have hmod' : (s + n) % 2 ^ 64 = s + n := Nat.mod_eq_of_lt (by omega)
    rw [hmod, hmod'] at hrest
    rw [copyDown, ← Nat.add_assoc, ← Nat.add_assoc, hd', hs',
      setByte_copy_front (Nat.add_le_add_right hle n), hrest, Nat.add_assoc, Nat.add_comm 1 k]

/-- Both directions leave the same memory. -/
theorem memmove_eq_copy (m : Mem) {dest src n : Nat} (hd : dest + n ≤ 2 ^ 64)
    (hs : src + n ≤ 2 ^ 64) : memmove m dest src n = (dest, copy m dest src n) := by
  unfold memmove
  by_cases hle : dest ≤ src
  · rw [if_pos hle]
    cases n with
    | zero => rw [copy_zero]; rfl
    | succ n =>
      have hup := copyUp_eq hle m (n + 1) 0 hd hs
      have hd' : dest % 2 ^ 64 = dest := Nat.mod_eq_of_lt (by omega)
      have hs' : src % 2 ^ 64 = src := Nat.mod_eq_of_lt (by omega)
      rw [copy_zero, Nat.zero_add, Nat.add_zero dest, Nat.add_zero src, hd', hs'] at hup
      rw [hup]
  · have hdown := copyDown_eq (by omega : src ≤ dest) m n 0 hd hs
    rw [copy_zero, Nat.add_zero] at hdown
    rw [if_neg hle, hdown]

/-- For every memory and every two ranges that do not wrap, however they
overlap: the destination has the old bytes of the source, and no other byte
is changed. -/
theorem memmove_overlap (m : Mem) (dest src n : Nat) (hd : dest + n ≤ 2 ^ 64)
    (hs : src + n ≤ 2 ^ 64) :
    (memmove m dest src n).1 = dest ∧
      (∀ i, i < n → (memmove m dest src n).2 (dest + i) = m (src + i)) ∧
      ∀ x, x < dest ∨ dest + n ≤ x → (memmove m dest src n).2 x = m x := by
  rw [memmove_eq_copy m hd hs]
  exact ⟨rfl, fun i hi => copy_apply_of_inside src hi, fun x hx => copy_apply_of_outside src hx⟩

/-- Four bytes that are moved up by one, into the range they come from, at the
end of the address space. -/
theorem memmove_overlap_up :
    (memmove (fun x => UInt8.ofNat x) (2 ^ 64 - 4) (2 ^ 64 - 5) 4).1 = 2 ^ 64 - 4 ∧
      (memmove (fun x => UInt8.ofNat x) (2 ^ 64 - 4) (2 ^ 64 - 5) 4).2 (2 ^ 64 - 4 + 3)
        = UInt8.ofNat (2 ^ 64 - 5 + 3) := by
  have hmoved := memmove_overlap (fun x => UInt8.ofNat x) (2 ^ 64 - 4) (2 ^ 64 - 5) 4 (by decide)
    (by decide)
  exact ⟨hmoved.1, hmoved.2.1 3 (by decide)⟩

end HyperBench.Memmove

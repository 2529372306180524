import Mathlib.Data.Nat.Bitwise
import Mathlib.Tactic.Ring

/-!
# Flat byte memory

A memory holds one byte at every address.  `load m a n` reads the `n` bytes
at `a` as a little-endian number, `store m a n v` writes them, and
`fill m a n c` writes the byte `c` over a range.  `copy m d s n` has the bytes
of one range in another one, which may overlap it.

The frame lemmas say that a read depends on its own bytes only
(`load_congr`), so a store or a fill of a disjoint range does not change it
(`load_store_of_disjoint`, `load_fill_of_disjoint`).
-/

namespace ByteMem

/-- One byte at every address. -/
abbrev Mem := Nat → UInt8

/-- The little-endian number in the `n` bytes at `a`. -/
def load (m : Mem) (a : Nat) : Nat → Nat
  | 0 => 0
  | n + 1 => (m a).toNat + 256 * load m (a + 1) n

/-- Write the low `n` bytes of `v` at `a`. -/
def store (m : Mem) (a n v : Nat) : Mem :=
  fun x => if a ≤ x ∧ x < a + n then UInt8.ofNat (v / 256 ^ (x - a)) else m x

/-- Write the byte `c` over the `n` bytes at `a`. -/
def fill (m : Mem) (a n : Nat) (c : UInt8) : Mem :=
  fun x => if a ≤ x ∧ x < a + n then c else m x

/-! ## Single bytes -/

theorem store_apply_of_outside {m : Mem} {a n v x : Nat} (h : x < a ∨ a + n ≤ x) :
    store m a n v x = m x := by
  rw [store, if_neg (by omega)]

theorem fill_apply_of_outside {m : Mem} {a n x : Nat} {c : UInt8} (h : x < a ∨ a + n ≤ x) :
    fill m a n c x = m x := by
  rw [fill, if_neg (by omega)]

theorem fill_apply_of_inside {m : Mem} {a n x : Nat} {c : UInt8} (h : a ≤ x)
    (h' : x < a + n) : fill m a n c x = c := by
  rw [fill, if_pos ⟨h, h'⟩]

/-! ## Reads -/

/-- A read depends on its own bytes only. -/
theorem load_congr {m m' : Mem} {a n : Nat}
    (h : ∀ x, a ≤ x → x < a + n → m x = m' x) : load m a n = load m' a n := by
  induction n generalizing a with
  | zero => rfl
  | succ n ih =>
    rw [load, load, h a (Nat.le_refl a) (by omega),
      ih fun x hx hx' => h x (by omega) (by omega)]

theorem load_lt (m : Mem) (a n : Nat) : load m a n < 256 ^ n := by
  induction n generalizing a with
  | zero => simp [load]
  | succ n ih =>
    have hbyte : (m a).toNat < 256 := UInt8.toNat_lt (m a)
    have hrest := ih (a + 1)
    rw [load, Nat.pow_succ]
    omega

/-- A range of zero bytes reads as zero. -/
theorem load_eq_zero {m : Mem} {a n : Nat} (h : ∀ x, a ≤ x → x < a + n → m x = 0) :
    load m a n = 0 := by
  induction n generalizing a with
  | zero => rfl
  | succ n ih =>
    rw [load, h a (Nat.le_refl a) (by omega), ih fun x hx hx' => h x (by omega) (by omega)]
    rfl

/-- The tail of a store is the store of the remaining bytes. -/
private theorem load_store_tail (m : Mem) (a n v : Nat) :
    load (store m a (n + 1) v) (a + 1) n = load (store m (a + 1) n (v / 256)) (a + 1) n := by
  apply load_congr
  intro x hx hx'
  rw [store, store, if_pos (by omega), if_pos (by omega), Nat.div_div_eq_div_mul,
    ← Nat.pow_succ', show (x - (a + 1)).succ = x - a by omega]

/-- A read of what was just written. -/
theorem load_store_same (m : Mem) (a n v : Nat) : load (store m a n v) a n = v % 256 ^ n := by
  induction n generalizing m a v with
  | zero => simp [load, Nat.mod_one]
  | succ n ih =>
    have hbyte : (store m a (n + 1) v a).toNat = v % 256 := by
      rw [store, if_pos (by omega), Nat.sub_self, Nat.pow_zero, Nat.div_one,
        UInt8.toNat_ofNat']
    rw [load, hbyte, load_store_tail, ih, Nat.pow_succ', Nat.mod_mul]

theorem load_store_of_disjoint {m : Mem} {a n v b k : Nat} (h : a + n ≤ b ∨ b + k ≤ a) :
    load (store m a n v) b k = load m b k :=
  load_congr fun _ hx hx' => store_apply_of_outside (by omega)

theorem load_fill_of_disjoint {m : Mem} {a n b k : Nat} {c : UInt8}
    (h : a + n ≤ b ∨ b + k ≤ a) : load (fill m a n c) b k = load m b k :=
  load_congr fun _ hx hx' => fill_apply_of_outside (by omega)

theorem load_fill_zero {m : Mem} {a n b k : Nat} (h : a ≤ b) (h' : b + k ≤ a + n) :
    load (fill m a n 0) b k = 0 :=
  load_eq_zero fun _ hx hx' => fill_apply_of_inside (by omega) (by omega)

/-! ## Copies -/

/-- Write the byte `c` at `a`. -/
def setByte (m : Mem) (a : Nat) (c : UInt8) : Mem := fun x => if x = a then c else m x

/-- The memory in which the `n` bytes at `d` are those that `m` has at `s`. -/
def copy (m : Mem) (d s n : Nat) : Mem :=
  fun x => if d ≤ x ∧ x < d + n then m (s + (x - d)) else m x

theorem copy_apply_of_inside {m : Mem} {d n i : Nat} (s : Nat) (h : i < n) :
    copy m d s n (d + i) = m (s + i) := by
  rw [copy, if_pos (by omega), Nat.add_sub_cancel_left]

theorem copy_apply_of_outside {m : Mem} {d n x : Nat} (s : Nat) (h : x < d ∨ d + n ≤ x) :
    copy m d s n x = m x := by
  rw [copy, if_neg (by omega)]

theorem copy_zero (m : Mem) (d s : Nat) : copy m d s 0 = m := by
  funext x
  exact copy_apply_of_outside s (by omega)

/-- A copy grows at its end.  The byte that is read there is an old one when
the copy goes downwards. -/
theorem setByte_copy_back {d s : Nat} (h : d ≤ s) (m : Mem) (n : Nat) :
    setByte (copy m d s n) (d + n) (copy m d s n (s + n)) = copy m d s (n + 1) := by
  rw [copy_apply_of_outside (x := s + n) s (by omega)]
  funext x
  by_cases hx : x = d + n
  · rw [setByte, if_pos hx, hx, copy_apply_of_inside s (by omega)]
  · rw [setByte, if_neg hx, copy, copy]
    congr 1
    simp only [eq_iff_iff]
    omega

/-- A copy grows at its start.  The byte that is read there is an old one when
the copy goes upwards. -/
theorem setByte_copy_front {d s : Nat} (h : s ≤ d) (m : Mem) (n : Nat) :
    setByte (copy m (d + 1) (s + 1) n) d (copy m (d + 1) (s + 1) n s) = copy m d s (n + 1) := by
  rw [copy_apply_of_outside (x := s) _ (by omega)]
  funext x
  by_cases hx : x = d
  · rw [setByte, if_pos hx, hx, copy, if_pos (by omega), Nat.sub_self, Nat.add_zero]
  · rw [setByte, if_neg hx, copy, copy]
    by_cases hin : d + 1 ≤ x ∧ x < d + 1 + n
    · rw [if_pos hin, if_pos (by omega)]
      congr 1
      omega
    · rw [if_neg hin, if_neg (by omega)]

/-! ## Texts in memory -/

/-- Memory holds the bytes `bs` at `a`. -/
def Holds (m : Mem) (a : Nat) (bs : List UInt8) : Prop := ∀ i b, bs[i]? = some b → m (a + i) = b

theorem holds_cons {m : Mem} {a : Nat} {b : UInt8} {bs : List UInt8} :
    Holds m a (b :: bs) ↔ m a = b ∧ Holds m (a + 1) bs := by
  constructor
  · intro h
    refine ⟨h 0 b rfl, fun i c hc => ?_⟩
    rw [Nat.add_assoc, Nat.add_comm 1 i]
    exact h (i + 1) c hc
  · intro h i c hc
    cases i with
    | zero => exact h.1.trans (Option.some.inj hc)
    | succ i =>
      rw [← Nat.add_assoc, Nat.add_right_comm]
      exact h.2 i c hc

theorem Holds.append {m : Mem} {a : Nat} {bs cs : List UInt8} (h : Holds m a (bs ++ cs)) :
    Holds m a bs ∧ Holds m (a + bs.length) cs := by
  constructor
  · intro i b hb
    refine h i b ?_
    rw [List.getElem?_append_left (List.getElem?_eq_some_iff.1 hb).1]
    exact hb
  · intro i b hb
    rw [Nat.add_assoc]
    refine h _ b ?_
    rw [List.getElem?_append_right (Nat.le_add_right _ _), Nat.add_sub_cancel_left]
    exact hb

end ByteMem

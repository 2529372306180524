import HyperBench.Lib.Ascii
import HyperBench.Lib.CObject
import Mathlib.Data.Nat.Bitwise

/-!
# `binstr` of `lib/printf.c`

`binstr` writes a number in base 2, in groups of four digits.  The loop counts
the digits in `i`, and its output pointer also counts the separators.

* `binstrLoop_eq` runs the loop.  `textFrom` is the text of the rounds that are
  left.
* `rendering` says what the text is: the bits of the number in groups with a
  separator between them.  `textFrom_eq` finds the groups in the text of the
  rounds.
* `readBinary_bits` reads the number back.
-/

namespace HyperBench.Binstr

open Ascii CObject

/-- One byte per bit, a separator between the groups of four, and a NUL. -/
def BINSTR_SZ : Nat := 8 * 8 + 8 * 2

/-- The separator, an apostrophe. -/
def quote : UInt8 := 39

/-- `(x & (1ul << (n - i - 1))) ? '1' : '0'`. -/
def digit (x : UInt64) (n i : Nat) : UInt8 :=
  if x &&& (1 <<< UInt64.ofNat (n - i - 1)) ≠ 0 then chr '1' else chr '0'

/-- The loop of `binstr` from its variables `i` and `c` on, with at most
`fuel` rounds: the last `c` and the bytes that it has written to. -/
def binstrLoop (x : UInt64) (n : Nat) : Nat → Nat → Int → List UInt8 → Option (Int × List UInt8)
  | 0, _, _, _ => none
  | fuel + 1, i, c, o => do
    let o ← store o c (digit x n i)
    let c := c + 1
    let i := i + 1
    if i = n then
      let o ← store o c 0
      return (c, o)
    else if i % 4 = 0 then
      let o ← store o c quote
      binstrLoop x n fuel i (c + 1) o
    else binstrLoop x n fuel i c o

/-- `binstr(x, out)`, where `out` is an offset in an object: the object, and
whether the condition of the `assert` holds. -/
def binstr (x : UInt64) (o : List UInt8) (out : Nat) : Option (List UInt8 × Bool) := do
  let n := 8 * 8
  let (c, o) ← binstrLoop x n n 0 out o
  return (o, c + 1 - out == BINSTR_SZ)

/-! ## The loop -/

/-- The text of the last `rounds` rounds, the first of which is round `i`. -/
def textFrom (digits : Nat → UInt8) : Nat → Nat → List UInt8
  | 0, _ => []
  | rounds + 1, i =>
    digits i ::
      if rounds = 0 then [0]
      else if (i + 1) % 4 = 0 then quote :: textFrom digits rounds (i + 1)
      else textFrom digits rounds (i + 1)

/-- A store at the end of the bytes `w`, and where the pointer is then. -/
theorem store_next (w : List UInt8) (d c : UInt8) (rest : List UInt8) :
    store (w ++ d :: rest) w.length c = some ((w ++ [c]) ++ rest) ∧
      (w.length : Int) + 1 = (w ++ [c]).length := by
  refine ⟨?_, ?_⟩
  · rw [store_append, List.append_assoc, List.singleton_append]
  · rw [List.length_append, List.length_singleton, Int.natCast_add]
    rfl

/-- The loop writes the text of its rounds and nothing else. -/
theorem binstrLoop_eq (x : UInt64) {n rounds i : Nat} (hpos : 0 < rounds) (hi : i + rounds = n)
    (w : List UInt8) {old : List UInt8}
    (hold : old.length = (textFrom (digit x n) rounds i).length) (rest : List UInt8) :
    binstrLoop x n rounds i w.length (w ++ (old ++ rest))
      = some (((w ++ textFrom (digit x n) rounds i).length : Int) - 1,
          w ++ textFrom (digit x n) rounds i ++ rest) := by
  -- each round moves what it writes from the old bytes to the written ones
  induction rounds generalizing i w old with
  | zero => exact absurd hpos (Nat.lt_irrefl 0)
  | succ rounds ih =>
    obtain ⟨d, old, rfl⟩ : ∃ d old', old = d :: old' := by
      refine List.exists_cons_of_length_pos ?_
      rw [hold, textFrom, List.length_cons]
      exact Nat.succ_pos _
    obtain ⟨hdigit, hc⟩ := store_next w d (digit x n i) (old ++ rest)
    rw [textFrom, List.length_cons, List.length_cons, Nat.add_right_cancel_iff] at hold
    rw [binstrLoop, textFrom, List.append_cons w (digit x n i), List.cons_append, hdigit,
      Option.bind_eq_bind, Option.bind_some, hc]
    generalize w ++ [digit x n i] = w at *
    by_cases hlast : rounds = 0
    · subst hlast
      rw [if_pos rfl] at hold ⊢
      obtain ⟨e, rfl⟩ := List.length_eq_one_iff.1 hold
      obtain ⟨hnul, hend⟩ := store_next w e 0 rest
      rw [if_pos hi, List.singleton_append, hnul, Option.bind_some, ← hend, Int.add_sub_cancel]
      rfl
    · have hnext : 0 < rounds := Nat.pos_of_ne_zero hlast
      have hi' : i + 1 + rounds = n := by omega
      rw [if_neg hlast] at hold ⊢
      rw [if_neg (by omega : ¬ i + 1 = n)]
      by_cases hgroup : (i + 1) % 4 = 0
      · rw [if_pos hgroup] at hold ⊢
        obtain ⟨e, old, rfl⟩ : ∃ e old', old = e :: old' := by
          refine List.exists_cons_of_length_pos ?_
          rw [hold, List.length_cons]
          exact Nat.succ_pos _
        obtain ⟨hquote, hc'⟩ := store_next w e quote (old ++ rest)
        rw [List.length_cons, List.length_cons, Nat.add_right_cancel_iff] at hold
        rw [if_pos hgroup, List.append_cons w quote, List.cons_append, hquote,
          Option.bind_some, hc']
        exact ih hnext hi' _ hold
      · rw [if_neg hgroup] at hold ⊢
        rw [if_neg hgroup]
        exact ih hnext hi' w hold

/-! ## The groups -/

/-- Four digits, from digit `i` on. -/
def group (digits : Nat → UInt8) (i : Nat) : List UInt8 :=
  (List.range 4).map fun j => digits (i + j)

/-- `count` groups, the first of which starts with digit `i`. -/
def groups (digits : Nat → UInt8) (i count : Nat) : List (List UInt8) :=
  (List.range count).map fun k => group digits (i + 4 * k)

/-- The bits of `x` as digits, most significant first. -/
def bits (x : UInt64) (i : Nat) : UInt8 :=
  if x.toNat.testBit (63 - i) then chr '1' else chr '0'

/-- The text of `x`: its 64 bits in groups of four, a separator between each
two groups, and a NUL. -/
def rendering (x : UInt64) : List UInt8 := [quote].intercalate (groups (bits x) 0 16) ++ [0]

theorem groups_succ (digits : Nat → UInt8) (i count : Nat) :
    groups digits i (count + 1) = group digits i :: groups digits (i + 4) count := by
  unfold groups
  rw [List.range_succ_eq_map, List.map_cons, List.map_map]
  refine congrArg₂ List.cons rfl (List.map_congr_left fun k _ => ?_)
  show group digits (i + 4 * (k + 1)) = group digits (i + 4 + 4 * k)
  rw [show i + 4 * (k + 1) = i + 4 + 4 * k by omega]

/-- Four rounds write one group, and the separator if rounds are left. -/
theorem textFrom_group (digits : Nat → UInt8) (rounds : Nat) {i : Nat} (hi : i % 4 = 0) :
    textFrom digits (rounds + 4) i
      = group digits i ++ if rounds = 0 then [0] else quote :: textFrom digits rounds (i + 4) := by
  have h1 : (i + 1) % 4 ≠ 0 := by omega
  have h2 : (i + 1 + 1) % 4 ≠ 0 := by omega
  have h3 : (i + 1 + 1 + 1) % 4 ≠ 0 := by omega
  have h4 : (i + 1 + 1 + 1 + 1) % 4 = 0 := by omega
  rw [textFrom, if_neg (by omega), if_neg h1, textFrom, if_neg (by omega), if_neg h2, textFrom,
    if_neg (by omega), if_neg h3, textFrom, if_pos h4]
  rfl

theorem textFrom_eq (digits : Nat → UInt8) (count : Nat) {i : Nat} (hi : i % 4 = 0) :
    textFrom digits (4 * (count + 1)) i
      = [quote].intercalate (groups digits i (count + 1)) ++ [0] := by
  induction count generalizing i with
  | zero =>
    rw [groups_succ, Nat.mul_succ, textFrom_group digits _ hi, if_pos rfl]
    exact congrArg (· ++ [0]) List.intercalate_singleton.symm
  | succ count ih =>
    have hnext : (i + 4) % 4 = 0 := by omega
    rw [Nat.mul_succ, textFrom_group digits _ hi, if_neg (by omega), ih hnext,
      groups_succ digits i, groups_succ, List.intercalate_cons_cons, List.append_assoc,
      List.append_assoc, List.singleton_append]

/-- The groups make up the digits. -/
theorem flatten_groups (digits : Nat → UInt8) (count : Nat) :
    (groups digits 0 count).flatten = (List.range (4 * count)).map digits := by
  induction count with
  | zero => rfl
  | succ count ih =>
    unfold groups at ih ⊢
    rw [List.range_succ, List.map_append, List.flatten_append, ih, List.map_singleton,
      List.flatten_singleton, Nat.mul_succ, List.range_add, List.map_append, List.map_map, group,
      Nat.zero_add]
    rfl

/-- Without the separators a text is what lies between them. -/
theorem filter_intercalate {sep : UInt8} {gs : List (List UInt8)} (h : sep ∉ gs.flatten) :
    ([sep].intercalate gs).filter (· ≠ sep) = gs.flatten := by
  have hkeep : ∀ g : List UInt8, sep ∉ g → g.filter (· ≠ sep) = g := by
    intro g hg
    refine List.filter_eq_self.2 fun c hc => decide_eq_true fun hsep => ?_
    exact hg (hsep ▸ hc)
  induction gs with
  | nil => rfl
  | cons g gs ih =>
    rw [List.flatten_cons, List.mem_append, not_or] at h
    cases gs with
    | nil => rw [List.intercalate_singleton, hkeep g h.1, List.flatten_singleton]
    | cons g' gs =>
      have hsep : [sep].filter (· ≠ sep) = [] := by simp
      rw [List.intercalate_cons_cons, List.filter_append, List.filter_append, ih h.2, hkeep g h.1,
        hsep, List.append_nil]
      exact List.flatten_cons.symm

/-! ## The bits -/

theorem toNat_bit {k : Nat} (hk : k < 64) : ((1 : UInt64) <<< UInt64.ofNat k).toNat = 2 ^ k := by
  have hle : k % 2 ^ 64 % 64 = k := by omega
  rw [UInt64.toNat_shiftLeft, UInt64.toNat_ofNat', hle, UInt64.toNat_one, Nat.one_shiftLeft,
    Nat.mod_eq_of_lt (Nat.pow_lt_pow_right (by omega) hk)]

theorem and_bit_ne_zero_iff (x : UInt64) {k : Nat} (hk : k < 64) :
    x &&& (1 <<< UInt64.ofNat k) ≠ 0 ↔ x.toNat.testBit k = true := by
  rw [ne_eq, ← UInt64.toNat_inj, UInt64.toNat_and, toNat_bit hk, UInt64.toNat_zero,
    Nat.and_two_pow]
  cases x.toNat.testBit k <;> simp

/-- The rounds write the bits. -/
theorem digit_eq_bits (x : UInt64) : digit x 64 = bits x := by
  funext i
  rw [digit, bits, show 64 - i - 1 = 63 - i by omega]
  simp only [and_bit_ne_zero_iff x (show 63 - i < 64 by omega)]

theorem textFrom_eq_rendering (x : UInt64) : textFrom (digit x 64) 64 0 = rendering x := by
  rw [digit_eq_bits]
  exact textFrom_eq (bits x) 15 rfl

theorem length_rendering (x : UInt64) : (rendering x).length = BINSTR_SZ := rfl

theorem mem_bits {x : UInt64} {count : Nat} {c : UInt8} (hc : c ∈ (List.range count).map (bits x)) :
    c = chr '0' ∨ c = chr '1' := by
  obtain ⟨i, -, rfl⟩ := List.mem_map.1 hc
  unfold bits
  split
  · exact Or.inr rfl
  · exact Or.inl rfl

/-- What is left of the text without its separators. -/
theorem filter_groups (x : UInt64) (count : Nat) :
    ([quote].intercalate (groups (bits x) 0 count)).filter (· ≠ quote)
      = (List.range (4 * count)).map (bits x) := by
  rw [filter_intercalate, flatten_groups]
  rw [flatten_groups]
  intro hquote
  rcases mem_bits hquote with h | h <;> exact absurd h (by decide)

/-- The NUL of the text is its last byte. -/
theorem cString_rendering (x : UInt64) :
    cString (rendering x) = [quote].intercalate (groups (bits x) 0 16) := by
  refine cString_append_nul fun hnul => ?_
  have hbit : (0 : UInt8) ∈ (List.range (4 * 16)).map (bits x) := by
    rw [← filter_groups]
    exact List.mem_filter.2 ⟨hnul, by decide⟩
  rcases mem_bits hbit with h | h <;> exact absurd h (by decide)

/-! ## Reading it back -/

/-- A text of digits read in base 2. -/
def readBinary (text : List UInt8) : Nat :=
  text.foldl (fun v c => 2 * v + (c.toNat - (chr '0').toNat)) 0

theorem toNat_bits (x : UInt64) (i : Nat) :
    (bits x i).toNat - (chr '0').toNat = x.toNat / 2 ^ (63 - i) % 2 := by
  rw [bits, Nat.testBit_eq_decide_div_mod_eq]
  rcases Nat.mod_two_eq_zero_or_one (x.toNat / 2 ^ (63 - i)) with h | h
  · rw [h]
    rfl
  · rw [h]
    rfl

/-- The first `k` bits are the number without its other bits. -/
theorem readBinary_bits (x : UInt64) {k : Nat} (hk : k ≤ 64) :
    readBinary ((List.range k).map (bits x)) = x.toNat / 2 ^ (64 - k) := by
  unfold readBinary
  induction k with
  | zero => exact (Nat.div_eq_of_lt x.toNat_lt).symm
  | succ k ih =>
    have hhalf : x.toNat / 2 ^ (64 - k) = x.toNat / 2 ^ (64 - (k + 1)) / 2 := by
      rw [Nat.div_div_eq_div_mul, ← Nat.pow_succ, show (64 - (k + 1)).succ = 64 - k by omega]
    rw [List.range_succ, List.map_append, List.foldl_append, ih (by omega), List.map_singleton,
      List.foldl_cons, List.foldl_nil, toNat_bits, hhalf, show 63 - k = 64 - (k + 1) by omega]
    exact Nat.div_add_mod _ 2

/-- `binstr` fills its buffer with the bits of `x`, most significant first, in
groups of four.  Its `assert` holds, and the text without the separators reads
as `x`. -/
theorem binstr_renders (x : UInt64) {out : List UInt8} (hout : out.length = BINSTR_SZ)
    (before after : List UInt8) :
    binstr x (before ++ (out ++ after)) before.length
        = some (before ++ (rendering x ++ after), true) ∧
      (rendering x).length = BINSTR_SZ ∧
      readBinary ((cString (rendering x)).filter (· ≠ quote)) = x.toNat := by
  refine ⟨?_, length_rendering x, ?_⟩
  · have hold : out.length = (textFrom (digit x 64) 64 0).length := by
      rw [hout, textFrom_eq_rendering, length_rendering]
    have hloop := binstrLoop_eq x (Nat.succ_pos 63) (Nat.zero_add 64) before hold after
    have hassert : ((before ++ rendering x).length : Int) - 1 + 1 - before.length = BINSTR_SZ := by
      rw [List.length_append, length_rendering]
      omega
    rw [textFrom_eq_rendering, List.append_assoc] at hloop
    show (binstrLoop x 64 64 0 before.length (before ++ (out ++ after))).bind _ = _
    rw [hloop, Option.bind_some]
    simp only [hassert]
    rfl
  · rw [cString_rendering, filter_groups, readBinary_bits x (Nat.le_refl 64), Nat.sub_self,
      Nat.pow_zero, Nat.div_one]

/-- A number with a one at each end. -/
theorem binstr_renders_ends :
    binstr 0x8000000000000001 (List.replicate 80 7) 0
      = some (rendering 0x8000000000000001, true) := by
  have h := (binstr_renders 0x8000000000000001 (List.length_replicate (n := 80) (a := 7)) [] []).1
  rwa [List.append_nil, List.append_nil, List.nil_append] at h

end HyperBench.Binstr

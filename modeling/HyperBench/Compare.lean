import HyperBench.Glob
import Mathlib.Data.Int.Order.Basic

/-!
# The orders of `strcmp` and `memcmp`

Both functions answer the difference of the first two bytes that differ, but
`strncmp` takes them as `char`s, which are signed, and `memcmp` as
`unsigned char`s.

* `sign_compareBy_eq_iff`: the two differences have one sign exactly when both
  bytes lie on the same side of 128.
* `strcmpLe_iff`: `strcmp` orders strings by their `char`s, the NUL counted,
  and so it is a total order in any case.
* `strncmp_memcmp_sign` says when the two orders agree.
-/

namespace HyperBench.Compare

open CObject LexOrder Strings Glob

/-! ## Signs -/

theorem signedChar_eq (c : UInt8) :
    signedChar c = if c < 128 then unsignedChar c else unsignedChar c - 256 := by
  have hcond : (2 * c.toNat < 2 ^ 8) = (c < 128) := by
    rw [UInt8.lt_iff_toNat_lt, eq_iff_iff]
    show 2 * c.toNat < 256 ↔ c.toNat < 128
    omega
  show c.toBitVec.toInt = _
  rw [BitVec.toInt_eq_toNat_cond]
  simp only [UInt8.toNat_toBitVec, hcond]
  rfl

theorem unsignedChar_lt (c : UInt8) : unsignedChar c < 256 := Int.ofNat_lt.2 c.toNat_lt

theorem lt_128_iff (c : UInt8) : c < 128 ↔ unsignedChar c < 128 := by
  rw [UInt8.lt_iff_toNat_lt]
  exact Int.ofNat_lt.symm

/-- Two bytes of the same half are in one order, two bytes of different halves
in opposite ones. -/
theorem sign_sub_eq_iff {x y : UInt8} (h : x ≠ y) :
    (signedChar x - signedChar y).sign = (unsignedChar x - unsignedChar y).sign
      ↔ (x < 128 ↔ y < 128) := by
  have hne : unsignedChar x ≠ unsignedChar y := fun heq => h (unsignedChar_injective heq)
  have hx := unsignedChar_lt x
  have hy := unsignedChar_lt y
  have hx0 : 0 ≤ unsignedChar x := Int.natCast_nonneg _
  have hy0 : 0 ≤ unsignedChar y := Int.natCast_nonneg _
  rw [signedChar_eq, signedChar_eq]
  simp only [lt_128_iff]
  by_cases hxl : unsignedChar x < 128
  · by_cases hyl : unsignedChar y < 128
    · rw [if_pos hxl, if_pos hyl]
      exact iff_of_true rfl (iff_of_true hxl hyl)
    · rw [if_pos hxl, if_neg hyl, Int.sign_eq_one_of_pos (by omega),
        Int.sign_eq_neg_one_of_neg (show unsignedChar x - unsignedChar y < 0 by omega)]
      exact iff_of_false (by decide) fun hiff => hyl (hiff.1 hxl)
  · by_cases hyl : unsignedChar y < 128
    · rw [if_neg hxl, if_pos hyl, Int.sign_eq_neg_one_of_neg (by omega),
        Int.sign_eq_one_of_pos (show 0 < unsignedChar x - unsignedChar y by omega)]
      exact iff_of_false (by decide) fun hiff => hxl (hiff.2 hyl)
    · rw [if_neg hxl, if_neg hyl, show unsignedChar x - 256 - (unsignedChar y - 256)
        = unsignedChar x - unsignedChar y by omega]
      exact iff_of_true rfl (iff_of_false hxl hyl)

/-- The bytes of the first difference lie on the same side of 128. -/
def SameHalf (d : Option (UInt8 × UInt8)) : Prop :=
  ∀ x y, d = some (x, y) → (x < 128 ↔ y < 128)

theorem sign_compareBy_eq_iff (n : Nat) (u v : List UInt8) :
    (compareBy signedChar (firstDifference n u v)).sign
        = (compareBy unsignedChar (firstDifference n u v)).sign
      ↔ SameHalf (firstDifference n u v) := by
  cases h : firstDifference n u v with
  | none => exact iff_of_true rfl fun x y hd => by cases hd
  | some d =>
    obtain ⟨x, y⟩ := d
    have hne : x ≠ y := (keys_of_firstDifference signedChar_injective h).1
    refine (sign_sub_eq_iff hne).trans ⟨fun hhalf x' y' hd => ?_, fun hhalf => hhalf x y rfl⟩
    obtain ⟨rfl, rfl⟩ := Prod.mk.inj (Option.some.inj hd)
    exact hhalf

/-! ## The answers on strings -/

variable (a b : CStr)

theorem strncmp_cstr (n : Nat) :
    strncmp (terminated a.bytes) 0 (terminated b.bytes) 0 n
      = some (compareBy signedChar
          (firstDifference n (terminated a.bytes) (terminated b.bytes))) := by
  have hs := strAt_terminated a.no_nul (Nat.zero_le _)
  have ht := strAt_terminated b.no_nul (Nat.zero_le _)
  exact strncmpLoop_eq hs ht (Nat.lt_succ_of_lt hs.length_lt) n

theorem memcmp_cstr (n : Nat) :
    memcmp (terminated a.bytes) (terminated b.bytes)
        (min n (min (a.bytes.length + 1) (b.bytes.length + 1))) 0 0
      = some (compareBy unsignedChar
          (firstDifference n (terminated a.bytes) (terminated b.bytes))) := by
  have hcmp := memcmp_eq (List.drop_zero (l := terminated a.bytes))
    (List.drop_zero (l := terminated b.bytes)) n
  rwa [length_terminated, length_terminated] at hcmp

/-! ## The order of `strcmp` -/

/-- `strcmp(a, b) <= 0`. -/
def strcmpLe : Prop := ∃ r, strcmp (terminated a.bytes) 0 (terminated b.bytes) 0 = some r ∧ r ≤ 0

/-- What `strcmp` orders a string by. -/
def signedKeys : List Int := keys signedChar SIZE_MAX (terminated a.bytes)

theorem strcmpLe_iff : strcmpLe a b ↔ signedKeys a ≤ signedKeys b := by
  have hneg := compareBy_neg_iff signedChar_injective a.no_nul b.no_nul SIZE_MAX
  have hzero := compareBy_eq_zero_iff signedChar_injective a.no_nul b.no_nul SIZE_MAX
  rw [le_iff_lt_or_eq, signedKeys, signedKeys, terminated, terminated, ← hneg, ← hzero,
    ← Int.le_iff_lt_or_eq]
  constructor
  · rintro ⟨r, hr, hle⟩
    rw [strcmp, strncmp_cstr] at hr
    obtain rfl := Option.some.inj hr
    exact hle
  · exact fun hle => ⟨_, strncmp_cstr a b SIZE_MAX, hle⟩

/-- The order tells strings apart. -/
theorem signedKeys_injective {a b : CStr} (h : signedKeys a = signedKeys b) :
    a.bytes = b.bytes :=
  eq_of_take_eq b.no_nul (Nat.lt_of_succ_le a.size_le)
    (List.map_injective_iff.2 signedChar_injective h)

/-- A bound behind the end of the first string is no bound. -/
theorem strncmp_eq_strcmp {n : Nat} (hn : a.bytes.length < n) :
    strncmp (terminated a.bytes) 0 (terminated b.bytes) 0 n
      = strcmp (terminated a.bytes) 0 (terminated b.bytes) 0 := by
  have hlen : (terminated a.bytes).length ≤ n := by
    rw [length_terminated]
    exact hn
  have hsize : (terminated a.bytes).length ≤ SIZE_MAX := by
    rw [length_terminated]
    exact a.size_le
  rw [strcmp, strncmp_cstr, strncmp_cstr, firstDifference_of_length_le hlen,
    firstDifference_of_length_le hsize]

/-- `strncmp` and `memcmp` have one sign exactly when the first two bytes that
differ, the NUL counted, lie on the same side of 128.  `memcmp` orders by
unsigned bytes in any case, and `strcmp` is `strncmp` without a bound and a
total order. -/
theorem strncmp_memcmp_sign (n : Nat) :
    ∃ r r', strncmp (terminated a.bytes) 0 (terminated b.bytes) 0 n = some r ∧
      memcmp (terminated a.bytes) (terminated b.bytes)
        (min n (min (a.bytes.length + 1) (b.bytes.length + 1))) 0 0 = some r' ∧
      (r.sign = r'.sign
        ↔ SameHalf (firstDifference n (terminated a.bytes) (terminated b.bytes))) ∧
      (r' < 0 ↔ keys unsignedChar n (terminated a.bytes)
        < keys unsignedChar n (terminated b.bytes)) ∧
      (r' = 0 ↔ keys unsignedChar n (terminated a.bytes)
        = keys unsignedChar n (terminated b.bytes)) ∧
      (a.bytes.length < n → strcmp (terminated a.bytes) 0 (terminated b.bytes) 0 = some r) ∧
      (strcmpLe a b ∨ strcmpLe b a) ∧ (strcmpLe a b → strcmpLe b a → a.bytes = b.bytes) ∧
      ∀ c, strcmpLe a b → strcmpLe b c → strcmpLe a c := by
  refine ⟨_, _, strncmp_cstr a b n, memcmp_cstr a b n, sign_compareBy_eq_iff n _ _, ?_, ?_, ?_, ?_,
    ?_, ?_⟩
  · exact compareBy_neg_iff unsignedChar_injective a.no_nul b.no_nul n
  · exact compareBy_eq_zero_iff unsignedChar_injective a.no_nul b.no_nul n
  · intro hn
    rw [← strncmp_eq_strcmp a b hn, strncmp_cstr]
  · rw [strcmpLe_iff, strcmpLe_iff]
    exact le_total _ _
  · rw [strcmpLe_iff, strcmpLe_iff]
    exact fun hab hba => signedKeys_injective (le_antisymm hab hba)
  · intro c
    rw [strcmpLe_iff, strcmpLe_iff, strcmpLe_iff]
    exact le_trans

/-- A byte from 128 on is a negative `char`, so `strcmp` has it in front of
all others. -/
theorem strcmp_high_byte :
    strncmp (terminated [0x80]) 0 (terminated [0x01]) 0 2 = some (-129) ∧
      strcmp (terminated [0x80]) 0 (terminated [0x01]) 0 = some (-129) ∧
      memcmp (terminated [0x80]) (terminated [0x01]) (min 2 (min 2 2)) 0 0 = some 127 ∧
      Int.sign (-129) ≠ Int.sign 127 :=
  ⟨rfl, rfl, rfl, by decide⟩

end HyperBench.Compare

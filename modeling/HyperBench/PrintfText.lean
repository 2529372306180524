import HyperBench.Lib.Columns
import HyperBench.Printf
import Mathlib.Data.Nat.Digits.Defs
import Mathlib.Data.Nat.Digits.Lemmas

/-!
# The text of `printf`

Everything that `printf.c` gives to its stream is a sequence of `addchar`
calls, and `put` is that sequence as one text.

* `printStr_put`, `printInt_put` and `printUnsigned_put` say that the text
  does not depend on the stream.
* `PStream.put_buffer` and `PStream.put_added` say what the stream of the
  source does with a text.
* `printStr_eq` gives the text of a string in a field of some width.
* `numeralIn` is the shortest numeral of a number, and `intBuffer_eq` says that
  `print_int` makes it.
-/

namespace HyperBench.Printf

open Ascii CObject Loop

/-! ## Texts on a stream -/

section Put

variable {σ : Type} [Sink σ]

/-- The characters of a text, one after the other. -/
def put (p : σ) (text : List UInt8) : σ := text.foldl addchar p

@[simp] theorem put_nil (p : σ) : put p [] = p := rfl

theorem put_singleton (p : σ) (c : UInt8) : put p [c] = addchar p c := rfl

theorem put_append (p : σ) (a b : List UInt8) : put p (a ++ b) = put (put p a) b :=
  List.foldl_append

theorem put_unlimited (a b : List UInt8) : put (⟨a⟩ : Unlimited) b = ⟨a ++ b⟩ := by
  induction b generalizing a with
  | nil => rw [put_nil, List.append_nil]
  | cons c b ih =>
    show put (⟨a ++ [c]⟩ : Unlimited) b = _
    rw [ih, List.append_assoc, List.singleton_append]

theorem addchars_eq (p : σ) (c : UInt8) (n : Nat) :
    addchars p c n = put p (List.replicate n c) := by
  induction n with
  | zero => rfl
  | succ n ih =>
    rw [List.replicate_succ', put_append, ← ih]
    rfl

/-- The text of `print_str`. -/
def strText (s : List UInt8) (props : StrProps) : List UInt8 :=
  (printStr (⟨[]⟩ : Unlimited) s props).text

theorem printStr_put (p : σ) (s : List UInt8) (props : StrProps) :
    printStr p s props = put p (strText s props) := by
  unfold strText printStr
  -- both streams take the same padding, the string, and the same blanks
  simp only [addchars_eq]
  show (if (if 0 < props.npad then _ else _ : σ × Int).2 < 0 then _ else put _ s) = _
  by_cases hpos : 0 < props.npad
  · simp only [hpos, if_true]
    by_cases hneg : min (toInt32 (props.npad - s.length)) 0 < 0
    · simp only [hneg, if_true]
      show put (put (put p _) s) _ = put p (put (put (put (⟨[]⟩ : Unlimited) _) s) _).text
      simp only [put_unlimited, put_append, List.nil_append]
    · simp only [hneg, if_false]
      show put (put p _) s = put p (put (put (⟨[]⟩ : Unlimited) _) s).text
      simp only [put_unlimited, put_append, List.nil_append]
  · simp only [hpos, if_false]
    by_cases hneg : props.npad < 0
    · simp only [hneg, if_true]
      show put (put p s) _ = put p (put (put (⟨[]⟩ : Unlimited) s) _).text
      simp only [put_unlimited, put_append, List.nil_append]
    · simp only [hneg, if_false]
      show put p s = put p (put (⟨[]⟩ : Unlimited) s).text
      simp only [put_unlimited, List.nil_append]

theorem printInt_put (outside : Int → UInt8) (p : σ) (n base : Int) (props : StrProps) :
    printInt outside p n base props
      = put p (strText (cString (intBuffer outside n base).reverse) props) :=
  printStr_put p _ props

/-- The text of `print_unsigned`. -/
def unsignedText (n base : Nat) (props : StrProps) : List UInt8 :=
  (printUnsigned (⟨[]⟩ : Unlimited) n base props).text

theorem printUnsigned_put (p : σ) (n base : Nat) (props : StrProps) :
    printUnsigned p n base props = put p (unsignedText n base props) := by
  unfold unsignedText printUnsigned
  dsimp only
  split
  · simp only [printStr_put, put_unlimited, List.nil_append]
  · split
    · split
      · simp only [printStr_put, ← put_singleton, put_unlimited, put_append, List.nil_append]
      · simp only [printStr_put, put_unlimited, List.nil_append]
    · simp only [printStr_put, put_unlimited, List.nil_append]

end Put

/-! ## The stream of the source -/

theorem toInt32_of_mem {x : Int} (h : -2 ^ 31 ≤ x) (h' : x < 2 ^ 31) : toInt32 x = x := by
  exact Int.bmod_eq_of_le (by omega) (by omega)

theorem PStream.addchar_of_room {p : PStream} (h : 0 < p.remain) (h' : p.remain < 2 ^ 31)
    (c : UInt8) :
    p.addchar c = ⟨p.buffer ++ [c], p.remain - 1, toInt32 (p.added + 1)⟩ := by
  have hne : p.remain ≠ 0 := by omega
  simp [PStream.addchar, hne, toInt32_of_mem (show -2 ^ 31 ≤ p.remain - 1 by omega)
    (show p.remain - 1 < 2 ^ 31 by omega)]

theorem PStream.addchar_of_full {p : PStream} (h : p.remain = 0) (c : UInt8) :
    p.addchar c = ⟨p.buffer, 0, toInt32 (p.added + 1)⟩ := by
  simp [PStream.addchar, h]

theorem PStream.addchar_added (p : PStream) (c : UInt8) :
    (p.addchar c).added = toInt32 (p.added + 1) := by
  unfold PStream.addchar
  split <;> rfl

/-- The part of a text that finds room is stored. -/
theorem PStream.put_buffer {p : PStream} (h : 0 ≤ p.remain) (h' : p.remain < 2 ^ 31)
    (text : List UInt8) : (put p text).buffer = p.buffer ++ text.take p.remain.toNat := by
  induction text generalizing p with
  | nil => simp
  | cons c text ih =>
    show (put (p.addchar c) text).buffer = _
    rcases Int.lt_or_eq_of_le h with hroom | hfull
    · have hsucc : p.remain.toNat = (p.remain - 1).toNat + 1 := by omega
      rw [PStream.addchar_of_room hroom h', ih (by show 0 ≤ p.remain - 1; omega)
        (by show p.remain - 1 < 2 ^ 31; omega), hsucc, List.take_succ_cons, List.append_assoc,
        List.singleton_append]
    · rw [PStream.addchar_of_full hfull.symm, ih (Int.le_refl 0) (by show (0 : Int) < 2 ^ 31; omega),
        ← hfull]
      rfl

/-- Every character is counted. -/
theorem PStream.put_added {p : PStream} {text : List UInt8} (h : 0 ≤ p.added)
    (h' : p.added + text.length < 2 ^ 31) : (put p text).added = p.added + text.length := by
  induction text generalizing p with
  | nil => simp
  | cons c text ih =>
    rw [List.length_cons] at h' ⊢
    have hchar : (p.addchar c).added = p.added + 1 := by
      rw [PStream.addchar_added, toInt32_of_mem (by omega) (by omega)]
    show (put (p.addchar c) text).added = _
    rw [ih (by omega) (by omega), hchar]
    omega

/-! ## Fields -/

section Field

variable {σ : Type} [Sink σ]

/-- A text in a field: on the right of it behind the pad character, or on the
left of it in front of blanks when the width is negative. -/
def padded (s : List UInt8) (props : StrProps) : List UInt8 :=
  if 0 < props.npad then List.replicate (props.npad - s.length).toNat props.pad ++ s
  else s ++ List.replicate (-props.npad - s.length).toNat (chr ' ')

theorem printStr_eq (p : σ) {s : List UInt8} {props : StrProps} (hs : s.length < 2 ^ 31)
    (hlo : -2 ^ 31 ≤ props.npad) (hhi : props.npad < 2 ^ 31) :
    printStr p s props = put p (padded s props) := by
  unfold printStr padded
  by_cases hpos : 0 < props.npad
  · -- a text that is too long leaves `npad` negative, but then its length is added again
    have hpad : toInt32 (props.npad - s.length) = props.npad - s.length :=
      toInt32_of_mem (by omega) (by omega)
    have hback : (-toInt32 (min (props.npad - s.length) 0 + s.length)).toNat = 0 := by
      rw [toInt32_of_mem (by omega) (by omega)]
      omega
    simp only [hpos, if_true, hpad, hback, addchars_eq, List.replicate_zero, put_nil,
      ite_self, put_append]
    rfl
  · simp only [hpos, if_false]
    by_cases hneg : props.npad < 0
    · rw [if_pos hneg, toInt32_of_mem (by omega) (by omega), addchars_eq, put_append,
        show -(props.npad + s.length : Int) = -props.npad - s.length by omega]
      rfl
    · rw [if_neg hneg, show (-props.npad - s.length : Int).toNat = 0 by omega,
        List.replicate_zero, List.append_nil]
      rfl

/-- A text that is filled up with blanks on the right. -/
abbrev field (w : Nat) (s : List UInt8) : List UInt8 := Columns.pad (chr ' ') w s

theorem field_no_nul {w : Nat} {s : List UInt8} (h : (0 : UInt8) ∉ s) : (0 : UInt8) ∉ field w s := by
  rw [field, Columns.pad, List.mem_append, List.mem_replicate]
  rintro (hs | hblank)
  · exact h hs
  · exact absurd hblank.2 (by decide)

theorem field_length_le (w : Nat) (s : List UInt8) : (field w s).length ≤ w + s.length := by
  rw [field, Columns.pad, List.length_append, List.length_replicate]
  omega

theorem padded_right (w : Nat) (pad : UInt8) (alternate : Bool) (s : List UInt8) :
    padded s ⟨pad, w, alternate⟩ = List.replicate (w - s.length) pad ++ s := by
  rcases Nat.eq_zero_or_pos w with rfl | hw
  · rw [padded, if_neg (by show ¬ ((0 : Nat) : Int) < (0 : Nat); omega), Nat.zero_sub]
    show s ++ List.replicate (-((0 : Nat) : Int) - s.length).toNat (chr ' ') = [] ++ s
    rw [show (-((0 : Nat) : Int) - s.length).toNat = 0 by omega, List.replicate_zero,
      List.append_nil, List.nil_append]
  · rw [padded, if_pos (by show (0 : Int) < w; omega)]
    show List.replicate ((w : Int) - s.length).toNat pad ++ s = _
    rw [Int.toNat_sub]

theorem padded_left (w : Nat) (pad : UInt8) (alternate : Bool) (s : List UInt8) :
    padded s ⟨pad, -w, alternate⟩ = field w s := by
  rw [padded, if_neg (by show ¬ (0 : Int) < -w; omega), field, Columns.pad]
  congr 2
  show (- -(w : Int) - s.length).toNat = w - s.length
  omega

end Field

/-! ## Numerals -/

/-- The shortest numeral of a number. -/
def numeralIn (base n : Nat) : List UInt8 :=
  if n = 0 then [chr '0'] else ((Nat.digits base n).map (digits.getD · 0)).reverse

/-- The decimal digits of a number, as `print_int` writes them. -/
abbrev numeral (n : Nat) : List UInt8 := numeralIn 10 n

section Numeral

variable {base n : Nat}

theorem numeralIn_ne_nil (base n : Nat) : numeralIn base n ≠ [] := by
  unfold numeralIn
  split
  · exact List.cons_ne_nil _ _
  · rename_i hn
    simpa using Nat.digits_ne_nil_iff_ne_zero.2 hn

/-- The characters of a numeral are digits of its base. -/
theorem digit_of_mem_numeralIn (hbase : 1 < base) {c : UInt8} (h : c ∈ numeralIn base n) :
    ∃ d < base, c = digits.getD d 0 := by
  unfold numeralIn at h
  split at h
  · exact ⟨0, Nat.lt_of_succ_lt hbase, List.mem_singleton.1 h⟩
  · obtain ⟨d, hd, rfl⟩ := List.mem_map.1 (List.mem_reverse.1 h)
    exact ⟨d, Nat.digits_lt_base hbase hd, rfl⟩

theorem numeralIn_length_le_iff (hbase : 1 < base) {k : Nat} (hk : 0 < k) :
    (numeralIn base n).length ≤ k ↔ n < base ^ k := by
  unfold numeralIn
  split
  · rename_i hn
    rw [hn]
    exact iff_of_true hk (Nat.pow_pos (Nat.lt_of_succ_lt hbase))
  · rw [List.length_reverse, List.length_map]
    exact Nat.digits_length_le_iff hbase n

/-- Reading the digits from the left gives the number back. -/
theorem foldl_numeralIn (hbase : 1 < base) {value : UInt8 → Nat}
    (hvalue : ∀ d < base, value (digits.getD d 0) = d) (n : Nat) :
    (numeralIn base n).foldl (fun v c => base * v + value c) 0 = n := by
  unfold numeralIn
  split
  · rename_i hn
    rw [hn]
    exact (Nat.zero_add _).trans (hvalue 0 (Nat.lt_of_succ_lt hbase))
  · have hfold : ∀ ds : List Nat, (∀ d ∈ ds, d < base) →
        ds.foldr (fun d v => base * v + value (digits.getD d 0)) 0 = Nat.ofDigits base ds := by
      intro ds hds
      induction ds with
      | nil => rfl
      | cons d ds ih =>
        rw [List.foldr_cons, ih fun e he => hds e (List.mem_cons_of_mem d he),
          hvalue d (hds d List.mem_cons_self), Nat.ofDigits_cons, Nat.add_comm]
    rw [List.foldl_reverse, List.foldr_map, hfold _ fun d hd => Nat.digits_lt_base hbase hd,
      Nat.ofDigits_digits]

end Numeral

theorem numeral_isDigit {n : Nat} {c : UInt8} (h : c ∈ numeral n) : isDigit c = true := by
  have htable : ∀ d, d < 10 → isDigit (digits.getD d 0) = true := by decide
  obtain ⟨d, hd, rfl⟩ := digit_of_mem_numeralIn (by decide) h
  exact htable d hd

theorem numeral_length {n k : Nat} (hk : 0 < k) (h : n < 10 ^ k) : (numeral n).length ≤ k :=
  (numeralIn_length_le_iff (by decide) hk).2 h

theorem decimal_numeral (n : Nat) : decimal (numeral n) = n :=
  foldl_numeralIn (by decide) (by decide) n

theorem numeral_no_nul (n : Nat) : (0 : UInt8) ∉ numeral n := fun h =>
  absurd (numeral_isDigit h) (by decide)

theorem intIndices_eq {n rounds : Nat} (h : n < 10 ^ rounds) :
    intIndices 10 rounds n = (Nat.digits 10 n).map (Int.ofNat ·) := by
  induction rounds generalizing n with
  | zero =>
    have hn : n = 0 := by omega
    simp [hn, intIndices]
  | succ rounds ih =>
    rw [intIndices]
    by_cases hn : n = 0
    · simp [hn]
    · rw [if_neg (by omega), Nat.digits_def' (by decide) (by omega), List.map_cons,
        ← ih (Nat.div_lt_of_lt_mul (by rw [← Nat.pow_succ']; exact h))]
      rfl

/-- The characters that `print_int` stores for a number. -/
theorem map_digitAt_intIndices {n : Nat} (outside : Int → UInt8) (h : n < 10 ^ 64) :
    (intIndices 10 64 n).map (digitAt outside) = (Nat.digits 10 n).map (digits.getD · 0) := by
  rw [intIndices_eq h, List.map_map]
  refine List.map_congr_left fun d hd => ?_
  have hlt : d < 10 := Nat.digits_lt_base (by decide) hd
  show digitAt outside d = _
  rw [digitAt, if_pos (by omega)]
  rfl

theorem intBuffer_eq {n : Nat} (outside : Int → UInt8) (h : n < 10 ^ 64) :
    (intBuffer outside n 10).reverse = numeral n := by
  unfold intBuffer numeral numeralIn
  have hneg : ¬ (n : Int) < 0 := by omega
  simp only [hneg, if_false, map_digitAt_intIndices outside h]
  by_cases hn : n = 0
  · simp [hn]
  · have hne : Nat.digits 10 n ≠ [] := Nat.digits_ne_nil_iff_ne_zero.2 hn
    simp [hn, hne]

end HyperBench.Printf

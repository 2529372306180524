import HyperBench.PrintfConcat

/-!
# Labels and numbers in a format

Most formats of the kernel are plain text with directives in between, and what
they print is read again by somebody.

* `Piece.plain`, `Piece.unsigned`, `Piece.hex`, `Piece.signed` and `Piece.string`
  are the pieces of such a format.  `Layout.plain` and `Layout.column` are the
  directives that occur most.
* `printf_plain` is a call without directives.
* `readNumber` and `expect` read a number and a label, and `readNumber_eq` and
  `expect_append` say that they read what was printed.
-/

namespace HyperBench.Printf

open Ascii CObject

/-! ## Pieces of one directive -/

theorem Layout.isFlag_flags (d : Layout) : ∀ c ∈ d.flags, isFlag c = true := by
  intro c hc
  have hdigit : isDigit c = true → isFlag c = true := by
    intro h
    simp only [isFlag, decide_eq_true_eq]
    tauto
  simp only [Layout.flags, List.mem_append] at hc
  rcases hc with hhash | hadjust | hwidth | hlength
  · obtain rfl : c = chr '#' := by
      split at hhash
      · exact List.mem_singleton.1 hhash
      · cases hhash
    decide
  · have htext : ∀ a : Adjust, ∀ e ∈ a.text, isFlag e = true := by
      intro a
      cases a <;> decide +kernel
    exact htext _ c hadjust
  · exact hdigit (widthText_isDigit _ c hwidth)
  · have htext : ∀ m : Length, ∀ e ∈ m.text, isFlag e = true := by
      intro m
      cases m <;> decide +kernel
    exact htext _ c hlength

theorem Layout.flags_length_le (d : Layout) : d.flags.length ≤ 14 := by
  have hwidth := widthText_length d.width
  have hhash : (if d.alternate then [chr '#'] else []).length ≤ 1 := by
    split <;> decide
  have hadjust : d.adjust.text.length ≤ 1 := by
    cases d.adjust <;> decide
  have hlength : d.length.text.length ≤ 2 := by
    cases d.length <;> decide
  simp only [Layout.flags, List.length_append]
  omega

theorem Layout.format_length_lt (d : Layout) (conv : UInt8) :
    (d.format conv).length < 2 ^ 31 := by
  have hlen := d.format_length conv
  have hshort := d.flags_length_le
  omega

theorem closed_format (d : Layout) {conv : UInt8} (hends : endsNumber conv = true)
    (hflag : isFlag conv = false) (hnul : conv ≠ 0) : closed false (d.format conv) = true := by
  have hconv : ¬ isFlag conv = true := by
    rw [hflag]
    decide
  show closed true (d.flags ++ [conv]) = true
  rw [closed_flags d.isFlag_flags, closed, if_neg hconv, hends, decide_eq_true hnul]
  rfl

section Directive

variable (outside : Int → UInt8) (d : Layout)

/-- One directive and its argument. -/
def Piece.ofLayout (conv : UInt8) (arg : Arg) (text : List UInt8) (hends : endsNumber conv = true)
    (hflag : isFlag conv = false) (hnul : conv ≠ 0)
    (hprints : Prints outside (d.format conv) [arg] text) : Piece outside where
  fmt := d.format conv
  args := [arg]
  text := text
  closed := closed_format d hends hflag hnul
  length_lt := d.format_length_lt conv
  prints := hprints

/-- `%u` -/
def Piece.unsigned (w : Nat) : Piece outside :=
  .ofLayout outside d (chr 'u') (.word w) (d.unsigned 10 (w % 2 ^ d.length.bits)) (by decide)
    (by decide) (by decide) (prints_u outside d w)

/-- `%x` -/
def Piece.hex (w : Nat) : Piece outside :=
  .ofLayout outside d (chr 'x') (.word w) (d.unsigned 16 (w % 2 ^ d.length.bits)) (by decide)
    (by decide) (by decide) (prints_x outside d w)

/-- `%s` -/
def Piece.string (s : List UInt8) (hs : s.length < 2 ^ 31) : Piece outside :=
  .ofLayout outside d (chr 's') (.str s) (d.string s) (by decide) (by decide) (by decide)
    (prints_s outside d hs)

/-- The text of `print_int` is the one of C99, except for the least number and
for zeros behind a minus sign. -/
theorem intText_signed {n : Int} (hlo : -2 ^ 63 < n) (hhi : n < 2 ^ 63) (hzero : d.adjust ≠ .zero) :
    strText (cString (intBuffer outside n 10).reverse) d.props = d.signed n := by
  have hlen := signedNumeral_length (by omega) hhi
  rw [intBuffer_reverse outside hlo hhi, cString_of_no_nul (signedNumeral_no_nul n),
    strText_eq (by omega) d.npad_range, (padded_signed_iff d n).2 fun h => hzero h.1]

/-- `%d` without the flag `0`, for every number but the least one. -/
theorem prints_d_c99 (w : Nat) (hzero : d.adjust ≠ .zero)
    (hleast : Int.bmod w (2 ^ d.length.bits) ≠ -2 ^ 63) :
    Prints outside (d.format (chr 'd')) [.word w] (d.signed (Int.bmod w (2 ^ d.length.bits))) := by
  have hrange := d.length.bmod_range w
  rw [← intText_signed outside d (by omega) hrange.2 hzero]
  exact prints_d outside d w

def Piece.signed (w : Nat) (hzero : d.adjust ≠ .zero)
    (hleast : Int.bmod w (2 ^ d.length.bits) ≠ -2 ^ 63) : Piece outside :=
  .ofLayout outside d (chr 'd') (.word w) (d.signed (Int.bmod w (2 ^ d.length.bits))) (by decide)
    (by decide) (by decide) (prints_d_c99 outside d w hzero hleast)

/-- Text without a directive. -/
def Piece.plain (text : List UInt8) (htext : ∀ c ∈ text, c ≠ 0 ∧ c ≠ chr '%')
    (hlen : text.length < 2 ^ 31) : Piece outside where
  fmt := text
  args := []
  text := text
  closed := by
    clear hlen
    induction text with
    | nil => rfl
    | cons c text ih =>
      rw [Printf.closed, decide_eq_false (htext c List.mem_cons_self).2]
      exact ih fun e he => htext e (List.mem_cons_of_mem c he)
  length_lt := hlen
  prints := prints_text outside htext

@[simp] theorem Piece.unsigned_fmt (w : Nat) :
    (Piece.unsigned outside d w).fmt = d.format (chr 'u') := rfl

@[simp] theorem Piece.unsigned_args (w : Nat) : (Piece.unsigned outside d w).args = [.word w] := rfl

@[simp] theorem Piece.unsigned_text (w : Nat) :
    (Piece.unsigned outside d w).text = d.unsigned 10 (w % 2 ^ d.length.bits) := rfl

@[simp] theorem Piece.hex_fmt (w : Nat) : (Piece.hex outside d w).fmt = d.format (chr 'x') := rfl

@[simp] theorem Piece.hex_args (w : Nat) : (Piece.hex outside d w).args = [.word w] := rfl

@[simp] theorem Piece.hex_text (w : Nat) :
    (Piece.hex outside d w).text = d.unsigned 16 (w % 2 ^ d.length.bits) := rfl

@[simp] theorem Piece.string_fmt (s : List UInt8) (hs) :
    (Piece.string outside d s hs).fmt = d.format (chr 's') := rfl

@[simp] theorem Piece.string_args (s : List UInt8) (hs) :
    (Piece.string outside d s hs).args = [.str s] := rfl

@[simp] theorem Piece.string_text (s : List UInt8) (hs) :
    (Piece.string outside d s hs).text = d.string s := rfl

@[simp] theorem Piece.signed_fmt (w : Nat) (hzero) (hleast) :
    (Piece.signed outside d w hzero hleast).fmt = d.format (chr 'd') := rfl

@[simp] theorem Piece.signed_args (w : Nat) (hzero) (hleast) :
    (Piece.signed outside d w hzero hleast).args = [.word w] := rfl

@[simp] theorem Piece.signed_text (w : Nat) (hzero) (hleast) :
    (Piece.signed outside d w hzero hleast).text
      = d.signed (Int.bmod w (2 ^ d.length.bits)) := rfl

@[simp] theorem Piece.plain_fmt (text : List UInt8) (htext) (hlen) :
    (Piece.plain outside text htext hlen).fmt = text := rfl

@[simp] theorem Piece.plain_args (text : List UInt8) (htext) (hlen) :
    (Piece.plain outside text htext hlen).args = [] := rfl

@[simp] theorem Piece.plain_text (text : List UInt8) (htext) (hlen) :
    (Piece.plain outside text htext hlen).text = text := rfl

end Directive

/-! ## The directives of the kernel -/

namespace Layout

/-- A directive without flags and without a width. -/
def plain (m : Length) : Layout := ⟨false, .right, none, m⟩

/-- A directive for a column: a width, and the text on the left of it. -/
def column (w : Width) (m : Length) : Layout := ⟨false, .left, some w, m⟩

variable (w : Width) (m : Length)

theorem plain_string (s : List UInt8) : (plain m).string s = s := c99Field_zero _ _ _

theorem plain_signed (n : Int) : (plain m).signed n = signedNumeral n := by
  rw [signedNumeral_eq]
  exact c99Field_zero _ _ _

theorem plain_unsigned (base n : Nat) : (plain m).unsigned base n = numeralIn base n := by
  rw [Layout.unsigned, if_neg fun h => Bool.false_ne_true h.1]
  exact c99Field_zero _ _ _

theorem column_string (s : List UInt8) : (column w m).string s = field w s := rfl

theorem column_unsigned (n : Nat) : (column w m).unsigned 10 n = field w (numeral n) := rfl

theorem column_signed (n : Nat) : (column w m).signed n = field w (numeral n) := by
  rw [Layout.signed, if_neg (by omega), Int.natAbs_natCast]
  rfl

end Layout

theorem signedNumeral_natCast (n : Nat) : signedNumeral n = numeral n := by
  rw [signedNumeral, if_neg (by omega), Int.natAbs_natCast]

/-- A number that is not negative is its own argument. -/
theorem Length.bmod_of_lt (m : Length) {n : Nat} (h : n < 2 ^ (m.bits - 1)) :
    Int.bmod n (2 ^ m.bits) = n := by
  cases m with
  | none => exact toInt32_of_mem (by omega) (by exact Int.ofNat_lt.2 h)
  | _ => exact toInt64_of_mem (by omega) (by exact Int.ofNat_lt.2 h)

theorem Length.bmod_ne_least (m : Length) {n : Nat} (h : n < 2 ^ (m.bits - 1)) :
    Int.bmod n (2 ^ m.bits) ≠ -2 ^ 63 := by
  rw [m.bmod_of_lt h]
  omega

/-- A text that `printf` sends as it is. -/
def plainText (text : List UInt8) : Bool :=
  text.length < 2000 && text.all fun c => c != 0 && c != chr '%'

theorem printf_plain (outside : Int → UInt8) {text : List UInt8} (h : plainText text = true) :
    printf outside text [] = some text := by
  simp only [plainText, Bool.and_eq_true, decide_eq_true_eq, List.all_eq_true, bne_iff_ne] at h
  obtain ⟨hlen, htext⟩ := h
  have hrun := printf_pieces [Piece.plain outside text htext (by omega)]
  simp only [List.flatMap_singleton, Piece.plain_fmt, Piece.plain_args, Piece.plain_text] at hrun
  exact hrun hlen fun hmem => (htext 0 hmem).1 rfl

/-! ## Reading numbers back -/

/-- The characters of the digits of a base. -/
def isDigitIn (base : Nat) (c : UInt8) : Bool := c ∈ digits.take base

/-- The value of a text of digits. -/
def valueIn (base : Nat) (ds : List UInt8) : Nat :=
  ds.foldl (fun v c => base * v + digits.idxOf c) 0

/-- The number at the front of a text, and the text behind it. -/
def readNumber (base : Nat) (text : List UInt8) : Option (Nat × List UInt8) :=
  let ds := text.takeWhile (isDigitIn base)
  if ds = [] then none else some (valueIn base ds, text.dropWhile (isDigitIn base))

/-- The text behind a label. -/
def expect (label text : List UInt8) : Option (List UInt8) :=
  if label.isPrefixOf text then some (text.drop label.length) else none

@[simp] theorem expect_append (label rest : List UInt8) : expect label (label ++ rest) = some rest := by
  rw [expect, if_pos (List.isPrefixOf_iff_prefix.2 (List.prefix_append label rest)), List.drop_left]

theorem valueIn_zeros (base zeros : Nat) (ds : List UInt8) :
    valueIn base (List.replicate zeros (chr '0') ++ ds) = valueIn base ds := by
  have hzero : base * 0 + digits.idxOf (chr '0') = 0 := Nat.zero_add _
  induction zeros with
  | zero => rfl
  | succ zeros ih =>
    rw [List.replicate_succ, List.cons_append, valueIn, List.foldl_cons, hzero]
    exact ih

theorem isDigitIn_getD {base : Nat} (hbase' : base ≤ 16) {k : Nat} (hk : k < base) :
    isDigitIn base (digits.getD k 0) = true := by
  have htable : ∀ b ≤ 16, ∀ k < b, isDigitIn b (digits.getD k 0) = true := by decide
  exact htable base hbase' k hk

section Numbers

variable {base : Nat} (hbase : 2 ≤ base) (hbase' : base ≤ 16)
include hbase hbase'

theorem numeralIn_isDigitIn (n : Nat) : ∀ c ∈ numeralIn base n, isDigitIn base c = true := by
  intro c hc
  obtain ⟨k, hk, rfl⟩ := digit_of_mem_numeralIn (by omega) hc
  exact isDigitIn_getD hbase' hk

theorem numeralIn_no_nul (n : Nat) : (0 : UInt8) ∉ numeralIn base n := fun h =>
  absurd (List.mem_of_mem_take (of_decide_eq_true (numeralIn_isDigitIn hbase hbase' n 0 h)))
    (by decide)

theorem valueIn_numeralIn (n : Nat) : valueIn base (numeralIn base n) = n := by
  have htable : ∀ k < 16, digits.idxOf (digits.getD k 0) = k := by decide
  exact foldl_numeralIn (by omega) (fun k hk => htable k (by omega)) n

/-- A number is read back, with zeros in front of it or not. -/
theorem readNumber_eq (zeros n : Nat) {rest : List UInt8}
    (hrest : isDigitIn base (rest.headD 0) = false) :
    readNumber base (List.replicate zeros (chr '0') ++ numeralIn base n ++ rest) = some (n, rest) := by
  have hdigits : ∀ c ∈ List.replicate zeros (chr '0') ++ numeralIn base n,
      isDigitIn base c = true := by
    intro c hc
    rcases List.mem_append.1 hc with hzero | hnumeral
    · rw [List.eq_of_mem_replicate hzero]
      exact isDigitIn_getD (k := 0) hbase' (by omega)
    · exact numeralIn_isDigitIn hbase hbase' n c hnumeral
  have hne : List.replicate zeros (chr '0') ++ numeralIn base n ≠ [] := fun h =>
    numeralIn_ne_nil base n (List.append_eq_nil_iff.1 h).2
  have hvalue : valueIn base (List.replicate zeros (chr '0') ++ numeralIn base n) = n := by
    rw [valueIn_zeros, valueIn_numeralIn hbase hbase']
  generalize List.replicate zeros (chr '0') ++ numeralIn base n = ds at hdigits hne hvalue ⊢
  unfold readNumber
  rw [takeWhile_append_stop hdigits (head_of_headD hrest),
    dropWhile_append_stop hdigits (head_of_headD hrest)]
  simp only [hne, if_false, hvalue]

end Numbers

end HyperBench.Printf

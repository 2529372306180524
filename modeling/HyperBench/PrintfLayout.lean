import HyperBench.PrintfGrammar
import HyperBench.PrintfNumber

/-!
# The layout of a directive

`Layout` is a directive as C99 writes it: an optional `#`, a flag for the side
of the text, a width and a length modifier.  `c99Field` is the text that C99
asks for.

* `stepN_layout` runs the scanner over such a directive up to its conversion:
  the properties are those of the directive.
* `unsignedText_c99` and `padded_c99` say that `print_unsigned` and
  `print_str` make the text of C99 from these properties.
* `layout_c99` puts them together for `%u`, `%x` and `%s`.
* `signed_layout_iff` is `%d`.  `print_str` does not know about the sign, so
  the zeros of a negative number stand in front of it.
-/

namespace HyperBench.Printf

open Ascii CObject

/-! ## Directives of C99 -/

/-- Where the text stands in its field: on the right behind blanks, on the
right behind zeros, or on the left. -/
inductive Adjust where
  | right
  | zero
  | left
  deriving DecidableEq, Repr

def Adjust.text : Adjust → List UInt8
  | .right => []
  | .zero => [chr '0']
  | .left => [chr '-']

/-- A length modifier. -/
inductive Length where
  | none
  | l
  | ll
  | z
  | t
  deriving DecidableEq, Repr

def Length.text : Length → List UInt8
  | .none => []
  | .l => [chr 'l']
  | .ll => [chr 'l', chr 'l']
  | .z => [chr 'z']
  | .t => [chr 't']

/-- The bits of the argument behind a length modifier. -/
def Length.bits : Length → Nat
  | .none => 32
  | _ => 64

/-- A width that an `int` holds, without a leading zero. -/
abbrev Width := {w : Nat // 0 < w ∧ w < 2 ^ 31}

structure Layout where
  alternate : Bool
  adjust : Adjust
  width : Option Width
  length : Length

/-- The width, or 0 when there is none. -/
def Layout.minimum (d : Layout) : Nat := (d.width.map Subtype.val).getD 0

def widthText : Option Width → List UInt8
  | none => []
  | some w => numeral w

/-- The characters between the `%` and the conversion. -/
def Layout.flags (d : Layout) : List UInt8 :=
  (if d.alternate then [chr '#'] else []) ++ (d.adjust.text ++ (widthText d.width ++ d.length.text))

/-- The whole directive. -/
def Layout.format (d : Layout) (conv : UInt8) : List UInt8 := chr '%' :: (d.flags ++ [conv])

/-- A sign or prefix and what follows it, in a field of at least `w`
characters. -/
def c99Field (adjust : Adjust) (w : Nat) (sign body : List UInt8) : List UInt8 :=
  let missing := w - (sign ++ body).length
  match adjust with
  | .right => List.replicate missing (chr ' ') ++ (sign ++ body)
  | .zero => sign ++ (List.replicate missing (chr '0') ++ body)
  | .left => (sign ++ body) ++ List.replicate missing (chr ' ')

theorem c99Field_zero (adjust : Adjust) (sign body : List UInt8) :
    c99Field adjust 0 sign body = sign ++ body := by
  cases adjust with
  | right => rw [c99Field, Nat.zero_sub, List.replicate_zero, List.nil_append]
  | zero => rw [c99Field, Nat.zero_sub, List.replicate_zero, List.nil_append]
  | left => rw [c99Field, Nat.zero_sub, List.replicate_zero, List.append_nil]

/-- The text of `%u` and `%x`. -/
def Layout.unsigned (d : Layout) (base n : Nat) : List UInt8 :=
  c99Field d.adjust d.minimum
    (if d.alternate = true ∧ base = 16 ∧ n ≠ 0 then [chr '0', chr 'x'] else []) (numeralIn base n)

/-- The text of `%d`. -/
def Layout.signed (d : Layout) (n : Int) : List UInt8 :=
  c99Field d.adjust d.minimum (if n < 0 then [chr '-'] else []) (numeral n.natAbs)

/-- The text of `%s`. -/
def Layout.string (d : Layout) (s : List UInt8) : List UInt8 := c99Field d.adjust d.minimum [] s

/-! ## The scanner at such a directive -/

/-- What the flags of a directive should leave in `props`. -/
def Layout.props (d : Layout) : StrProps where
  pad := if d.adjust = .zero then chr '0' else chr ' '
  npad := if d.adjust = .left then -d.minimum else d.minimum
  alternate := d.alternate

/-- What a length modifier should leave in `nlong`. -/
def Length.longs : Length → Int
  | .none => 0
  | .ll => 2
  | _ => 1

theorem widthText_isDigit (w : Option Width) : ∀ c ∈ widthText w, isDigit c = true := by
  intro c hc
  cases w with
  | none => cases hc
  | some w => exact numeral_isDigit hc

theorem widthText_length (w : Option Width) : (widthText w).length ≤ 10 := by
  cases w with
  | none => exact Nat.zero_le _
  | some w => exact numeral_length (by decide) (by have := w.2; omega)

theorem Layout.minimum_lt (d : Layout) : d.minimum < 2 ^ 31 := by
  unfold Layout.minimum
  cases d.width with
  | none => exact Nat.two_pow_pos 31
  | some w => exact w.2.2

theorem decimal_widthText (d : Layout) : decimal (widthText d.width) = d.minimum := by
  unfold Layout.minimum
  cases d.width with
  | none => rfl
  | some w => exact decimal_numeral w

/-- A number that is not 0 has no leading zero. -/
theorem numeral_cons {n : Nat} (hn : 0 < n) :
    ∃ c t, numeral n = c :: t ∧ isDigit c = true ∧ c ≠ chr '0' := by
  have hne : Nat.digits 10 n ≠ [] := Nat.digits_ne_nil_iff_ne_zero.2 (by omega)
  have htable : ∀ d, d < 10 → d ≠ 0 → digits.getD d 0 ≠ chr '0' := by decide
  have hnumeral : numeral n = digits.getD ((Nat.digits 10 n).getLast hne) 0 ::
      ((Nat.digits 10 n).dropLast.map (digits.getD · 0)).reverse := by
    rw [numeral, numeralIn, if_neg (by omega)]
    conv_lhs => rw [← List.dropLast_append_getLast hne]
    rw [List.map_append, List.reverse_append]
    rfl
  refine ⟨_, _, hnumeral, numeral_isDigit (n := n) ?_, htable _ ?_ ?_⟩
  · rw [hnumeral]
    exact List.mem_cons_self
  · exact Nat.digits_lt_base (by decide) (List.getLast_mem hne)
  · exact Nat.getLast_digit_ne_zero 10 (by omega)

theorem numberLength_digits {ds rest : List UInt8} (hds : ∀ c ∈ ds, isDigit c = true)
    (hrest : isNumeric (rest.headD 0) = false) : numberLength (ds ++ rest) = ds.length := by
  rw [numberLength_append hrest]
  cases ds with
  | nil => rfl
  | cons c ds =>
    have hdigits : digitsLength (c :: ds) = (c :: ds).length := by
      rw [digitsLength, List.takeWhile_eq_self_iff.2 hds]
    rw [numberLength_of_digits (by rw [hdigits]; exact Nat.succ_pos _), hdigits]

/-! ### The width behind a flag -/

section Width

variable (d : Layout) {rest : List UInt8}

theorem not_numeric_of_ends (hends : endsNumber (rest.headD 0) = true) :
    isDigit (rest.headD 0) = false ∧ isNumeric (rest.headD 0) = false := by
  simp only [endsNumber, not_or, decide_eq_true_eq] at hends
  have hdigit : isDigit (rest.headD 0) = false := Bool.eq_false_iff.2 hends.1
  refine ⟨hdigit, ?_⟩
  simp only [isNumeric, decide_eq_false_iff_not, not_or]
  exact ⟨hends.1, hends.2.2.2.1⟩

theorem numberLength_width (hends : endsNumber (rest.headD 0) = true) :
    numberLength (widthText d.width ++ rest) = (widthText d.width).length :=
  numberLength_digits (widthText_isDigit d.width) (not_numeric_of_ends hends).2

theorem atolText_width (hends : endsNumber (rest.headD 0) = true) :
    toInt32 (atolText (widthText d.width ++ rest)) = d.minimum := by
  have hshort := widthText_length d.width
  have hmin := d.minimum_lt
  have hvalue := decimal_widthText d
  rw [atolText_digits (widthText_isDigit d.width) hends (by omega), hvalue]
  exact toInt32_of_mem (by omega) (by omega)

theorem flagLength_zero (hends : endsNumber (rest.headD 0) = true) :
    flagLength (chr '0') (widthText d.width ++ rest) = 1 + (widthText d.width).length := by
  rw [flagLength, if_pos rfl, numberLength_width d hends, Nat.add_comm]

theorem flagProps_zero (hadjust : d.adjust = .zero) (hends : endsNumber (rest.headD 0) = true) :
    flagProps ⟨chr ' ', 0, d.alternate⟩ (chr '0') (widthText d.width ++ rest) = d.props := by
  rw [flagProps, if_neg (by decide), if_pos rfl, atolText_width d hends, Layout.props, hadjust]
  rfl

theorem flagLength_minus (hends : endsNumber (rest.headD 0) = true) :
    flagLength (chr '-') (widthText d.width ++ rest) = 1 + (widthText d.width).length := by
  rw [flagLength, if_neg (by decide), if_pos (by decide),
    numberLength_cons_of_numeric (by decide), digitsLength,
    takeWhile_append_stop (widthText_isDigit d.width) (head_of_headD (not_numeric_of_ends hends).1),
    Nat.add_comm]

theorem flagProps_minus (hadjust : d.adjust = .left) (hends : endsNumber (rest.headD 0) = true) :
    flagProps ⟨chr ' ', 0, d.alternate⟩ (chr '-') (widthText d.width ++ rest) = d.props := by
  have hshort := widthText_length d.width
  have hmin := d.minimum_lt
  have hvalue := decimal_widthText d
  rw [flagProps, if_neg (by decide), if_neg (by decide), if_pos (by decide),
    atolText_minus (widthText_isDigit d.width) (not_numeric_of_ends hends).1 (by omega), hvalue,
    toInt32_of_mem (by omega) (by omega), Layout.props, hadjust]
  rfl

theorem flagLength_digit (hends : endsNumber (rest.headD 0) = true) {c : UInt8} {t : List UInt8}
    (htext : widthText d.width = c :: t) (hc : isDigit c = true) (hzero : c ≠ chr '0') :
    flagLength c (t ++ rest) = (c :: t).length := by
  have hlen := numberLength_width d hends
  rw [htext] at hlen
  rw [flagLength, if_neg hzero, if_pos (isNumeric_of_isDigit hc)]
  exact hlen

theorem flagProps_digit (hadjust : d.adjust = .right) (hends : endsNumber (rest.headD 0) = true)
    {c : UInt8} {t : List UInt8} (htext : widthText d.width = c :: t) (hc : isDigit c = true)
    (hzero : c ≠ chr '0') :
    flagProps ⟨chr ' ', 0, d.alternate⟩ c (t ++ rest) = d.props := by
  have hread := atolText_width d hends
  rw [htext] at hread
  have hhash : c ≠ chr '#' := by
    rintro rfl
    exact absurd hc (by decide)
  rw [flagProps, if_neg hhash, if_neg hzero, if_pos (isNumeric_of_isDigit hc)]
  show (⟨chr ' ', toInt32 (atolText (c :: t ++ rest)), d.alternate⟩ : StrProps) = _
  rw [hread, Layout.props, hadjust]
  rfl

end Width

section Scanner

variable {σ : Type} [Sink σ] (outside : Int → UInt8) {s : List UInt8} {i : Nat}

/-- A round at a number that makes `k` characters with its flag. -/
theorem stepN_number {c : UInt8} {t : List UInt8} {k : Nat} {props props' : StrProps}
    (hdrop : s.drop i = c :: t) (hc : isNumeric c = true) (hlen : flagLength c t = k)
    (hk : k < 2 ^ 31) (hprops : flagProps props c t = props') (p : σ) (args : List Arg)
    (nlong : Int) (ds : List Directive) :
    stepN outside (terminated s) 1 ⟨p, args, i, .directive props nlong, ds⟩
      = some ⟨p, args, (i + k : Nat), .directive props' nlong, ds⟩ := by
  have hflag : isFlag c = true := by
    simp only [isNumeric, decide_eq_true_eq] at hc
    simp only [isFlag, decide_eq_true_eq]
    tauto
  have hcount : numberAt c t ≤ flagLength c t := by
    unfold numberAt flagLength
    split
    · exact Nat.le_succ _
    · exact Nat.le_refl _
  rw [stepN_one, step_flag outside hdrop hflag, advance_eq (by omega), hlen, hprops,
    bump_of_numeric hc, Nat.cast_add]

/-- The flag for the side and the width behind it are one number for
`fmtnum`. -/
theorem stepN_width (d : Layout) {rest : List UInt8}
    (hdrop : s.drop i = d.adjust.text ++ (widthText d.width ++ rest))
    (hends : endsNumber (rest.headD 0) = true) (p : σ) (args : List Arg) (ds : List Directive) :
    ∃ m, stepN outside (terminated s) m
        ⟨p, args, i, .directive ⟨chr ' ', 0, d.alternate⟩ 0, ds⟩
      = some ⟨p, args, (i + (d.adjust.text.length + (widthText d.width).length) : Nat),
          .directive d.props 0, ds⟩ := by
  have hshort := widthText_length d.width
  cases hadjust : d.adjust with
  | zero =>
    rw [hadjust] at hdrop
    exact ⟨1, stepN_number outside hdrop (by decide) (flagLength_zero d hends) (by omega)
      (flagProps_zero d hadjust hends) p args 0 ds⟩
  | left =>
    rw [hadjust] at hdrop
    exact ⟨1, stepN_number outside hdrop (by decide) (flagLength_minus d hends) (by omega)
      (flagProps_minus d hadjust hends) p args 0 ds⟩
  | right =>
    rw [hadjust] at hdrop
    cases hwidth : d.width with
    | none =>
      refine ⟨0, ?_⟩
      rw [Layout.props, Layout.minimum, hadjust, hwidth]
      rfl
    | some w =>
      obtain ⟨c, t, hcons, hc, hzero⟩ := numeral_cons w.2.1
      have htext : widthText d.width = c :: t := by rw [hwidth]; exact hcons
      have hflag := flagLength_digit d hends htext hc hzero
      have hprops := flagProps_digit d hadjust hends htext hc hzero
      rw [htext] at hdrop hshort
      rw [← hwidth, htext, show Adjust.right.text.length = 0 from rfl, Nat.zero_add]
      exact ⟨1, stepN_number outside hdrop (isNumeric_of_isDigit hc) hflag (by omega) hprops p
        args 0 ds⟩

/-- The length modifier. -/
theorem stepN_length (m : Length) {conv : UInt8} (hdrop : s.drop i = m.text ++ [conv]) (p : σ)
    (args : List Arg) (props : StrProps) (ds : List Directive) :
    ∃ n, stepN outside (terminated s) n ⟨p, args, i, .directive props 0, ds⟩
      = some ⟨p, args, (i + m.text.length : Nat), .directive props m.longs, ds⟩ := by
  -- a modifier is one character, except `ll`
  have hstep : ∀ {j : Nat} {c : UInt8} {t : List UInt8} (nlong : Int), s.drop j = c :: t →
      c = chr 'l' ∨ c = chr 'z' ∨ c = chr 't' →
      step outside (terminated s) ⟨p, args, j, .directive props nlong, ds⟩
        = some ⟨p, args, (j + 1 : Nat), .directive props (bump nlong c), ds⟩ := by
    intro j c t nlong hcons hc
    rcases hc with rfl | rfl | rfl
    · exact step_flag outside hcons (by decide) p args props nlong ds
    · exact step_flag outside hcons (by decide) p args props nlong ds
    · exact step_flag outside hcons (by decide) p args props nlong ds
  have hone : bump 0 (chr 'l') = 1 := by decide
  have htwo : bump 1 (chr 'l') = 2 := by decide
  cases m with
  | none => exact ⟨0, rfl⟩
  | l =>
    refine ⟨1, ?_⟩
    rw [stepN_one, hstep 0 hdrop (.inl rfl), hone]
    rfl
  | z =>
    refine ⟨1, ?_⟩
    rw [stepN_one, hstep 0 hdrop (.inr (.inl rfl))]
    rfl
  | t =>
    refine ⟨1, ?_⟩
    rw [stepN_one, hstep 0 hdrop (.inr (.inr rfl))]
    rfl
  | ll =>
    have hnext : s.drop (i + 1) = [chr 'l', conv] := drop_succ_of_drop hdrop
    refine ⟨2, ?_⟩
    rw [stepN_succ_of_step (hstep 0 hdrop (.inl rfl)), stepN_one, hone, hstep 1 hnext (.inl rfl),
      htwo]
    rfl

/-- The run over a directive, up to its conversion. -/
theorem stepN_layout (d : Layout) {conv : UInt8} (hconv : endsNumber conv = true) (p : σ)
    (args : List Arg) :
    ∃ n, stepN outside (terminated (d.format conv)) n (.start p args)
      = some ⟨p, args, (1 + d.flags.length : Nat), .directive d.props d.length.longs, []⟩ := by
  obtain ⟨hash, hhash⟩ : ∃ hash, hash = if d.alternate then [chr '#'] else [] := ⟨_, rfl⟩
  have hflags : d.flags = hash ++ (d.adjust.text ++ (widthText d.width ++ d.length.text)) := by
    rw [hhash]
    rfl
  have hdrop : (d.format conv).drop (1 + hash.length)
      = d.adjust.text ++ (widthText d.width ++ (d.length.text ++ [conv])) := by
    rw [← List.drop_drop, Layout.format, hflags, List.drop_succ_cons, List.drop_zero,
      List.append_assoc, List.drop_left, List.append_assoc, List.append_assoc]
  have hdrop' : (d.format conv).drop
      (1 + hash.length + (d.adjust.text.length + (widthText d.width).length))
      = d.length.text ++ [conv] := by
    rw [← List.drop_drop, hdrop, ← List.append_assoc, ← List.length_append, List.drop_left]
  have hends : endsNumber ((d.length.text ++ [conv]).headD 0) = true := by
    cases d.length with
    | none => exact hconv
    | _ => rfl
  -- the rounds at the `%` and at the `#`
  have hpercent : step outside (terminated (d.format conv)) (.start p args)
      = some ⟨p, args, (0 + 1 : Nat), .directive .start 0, []⟩ :=
    step_percent outside (s := d.format conv) (i := 0) rfl p args []
  have halternate : ∃ n, stepN outside (terminated (d.format conv)) n
      ⟨p, args, (0 + 1 : Nat), .directive .start 0, []⟩
      = some ⟨p, args, (1 + hash.length : Nat), .directive ⟨chr ' ', 0, d.alternate⟩ 0, []⟩ := by
    cases halt : d.alternate with
    | false =>
      refine ⟨0, ?_⟩
      rw [hhash, halt]
      rfl
    | true =>
      have hnext : (d.format conv).drop 1
          = chr '#' :: (d.adjust.text ++ (widthText d.width ++ d.length.text) ++ [conv]) := by
        rw [Layout.format, Layout.flags, halt]
        rfl
      refine ⟨1, ?_⟩
      rw [stepN_one, step_flag outside hnext (by decide), hhash, halt]
      rfl
  obtain ⟨n₁, hrun₁⟩ := halternate
  obtain ⟨n₂, hrun₂⟩ := stepN_width outside d hdrop hends p args []
  obtain ⟨n₃, hrun₃⟩ := stepN_length outside d.length hdrop' p args d.props []
  refine ⟨n₁ + (n₂ + n₃) + 1, ?_⟩
  rw [stepN_succ_of_step hpercent, stepN_add hrun₁, stepN_add hrun₂, hrun₃, hflags]
  simp only [List.length_append, Nat.add_assoc]

end Scanner

theorem Layout.format_length (d : Layout) (conv : UInt8) :
    (d.format conv).length = 1 + d.flags.length + 1 := by
  rw [Layout.format, List.length_cons, List.length_append, List.length_singleton]
  omega

/-- The whole run of a directive with its argument. -/
theorem prints_layout (outside : Int → UInt8) (d : Layout) {conv : UInt8} {arg : Arg}
    {text : List UInt8} (hends : endsNumber conv = true) (hflag : isFlag conv = false)
    (hnul : conv ≠ 0)
    (hconvert : ∀ fmt scan ds, ∃ ds',
      convert outside ⟨⟨[]⟩, [arg], fmt, scan, ds⟩ d.props d.length.longs conv
        = some ⟨(⟨text⟩ : Unlimited), [], fmt, .text, ds'⟩) :
    Prints outside (d.format conv) [arg] text := by
  have hlen := d.format_length conv
  have hlast : (d.format conv).drop (1 + d.flags.length) = [conv] := by
    rw [← List.drop_drop, Layout.format, List.drop_succ_cons, List.drop_zero, List.drop_left]
  obtain ⟨n, hrun⟩ := stepN_layout outside d hends (⟨[]⟩ : Unlimited) [arg]
  have hstep := step_conversion outside (s := d.format conv) (i := 1 + d.flags.length) (by omega)
    (by rw [hlast]; rfl) hflag hnul (⟨[]⟩ : Unlimited) [arg] d.props d.length.longs []
  obtain ⟨ds, hconv⟩ := hconvert ((1 + d.flags.length : Nat) + 1)
    (.directive d.props d.length.longs) []
  refine ⟨n + 1, ds, ?_⟩
  rw [stepN_add hrun, stepN_one, hstep, hconv, hlen]
  rfl

/-! ## The text of C99 -/

theorem Layout.props_right {d : Layout} (h : d.adjust = .right) :
    d.props = ⟨chr ' ', d.minimum, d.alternate⟩ := by
  rw [Layout.props, h]
  rfl

theorem Layout.props_zero {d : Layout} (h : d.adjust = .zero) :
    d.props = ⟨chr '0', d.minimum, d.alternate⟩ := by
  rw [Layout.props, h]
  rfl

theorem Layout.props_left {d : Layout} (h : d.adjust = .left) :
    d.props = ⟨chr ' ', -d.minimum, d.alternate⟩ := by
  rw [Layout.props, h]
  rfl

/-- A text in its field.  With zeros it must have no sign in front. -/
theorem padded_c99 (d : Layout) {sign : List UInt8} (body : List UInt8)
    (h : d.adjust = .zero → sign = []) :
    padded (sign ++ body) d.props = c99Field d.adjust d.minimum sign body := by
  cases hadjust : d.adjust with
  | right =>
    rw [Layout.props_right hadjust, padded_right]
    rfl
  | zero =>
    rw [Layout.props_zero hadjust, padded_right, h hadjust]
    rfl
  | left =>
    rw [Layout.props_left hadjust, padded_left]
    rfl

theorem Layout.npad_range (d : Layout) : -2 ^ 31 ≤ d.props.npad ∧ d.props.npad < 2 ^ 31 := by
  have hmin := d.minimum_lt
  cases hadjust : d.adjust with
  | right =>
    rw [Layout.props_right hadjust]
    show (-2 ^ 31 : Int) ≤ d.minimum ∧ (d.minimum : Int) < 2 ^ 31
    omega
  | zero =>
    rw [Layout.props_zero hadjust]
    show (-2 ^ 31 : Int) ≤ d.minimum ∧ (d.minimum : Int) < 2 ^ 31
    omega
  | left =>
    rw [Layout.props_left hadjust]
    show (-2 ^ 31 : Int) ≤ -d.minimum ∧ (-d.minimum : Int) < 2 ^ 31
    omega

theorem strText_eq {s : List UInt8} {props : StrProps} (hs : s.length < 2 ^ 31)
    (hprops : -2 ^ 31 ≤ props.npad ∧ props.npad < 2 ^ 31) : strText s props = padded s props := by
  rw [strText, printStr_eq _ hs hprops.1 hprops.2, put_unlimited, List.nil_append]

theorem unsignedIndices_eq {base n rounds : Nat} (hbase : 1 < base) (h : n < base ^ rounds) :
    unsignedIndices base rounds n = Nat.digits base n := by
  induction rounds generalizing n with
  | zero =>
    have hn : n = 0 := by rw [Nat.pow_zero] at h; omega
    simp [hn, unsignedIndices]
  | succ rounds ih =>
    rw [unsignedIndices]
    by_cases hn : n = 0
    · simp [hn]
    · rw [if_neg hn, Nat.digits_def' hbase (by omega),
        ih (Nat.div_lt_of_lt_mul (by rw [← Nat.pow_succ']; exact h))]

theorem unsignedText_zero (base : Nat) (props : StrProps) :
    unsignedText 0 base props = strText [chr '0'] props := rfl

/-- The text of `print_unsigned` for a number that is not 0. -/
theorem unsignedText_pos {base n : Nat} (hbase : 1 < base) (hn : n < base ^ 64) (hpos : n ≠ 0)
    (props : StrProps) :
    unsignedText n base props
      = if props.alternate = true ∧ base = 16 then
          if props.pad = chr '0' then
            [chr '0', chr 'x'] ++ strText (numeralIn base n)
              { props with npad := if 0 < props.npad then max (props.npad - 2) 0 else props.npad }
          else strText ([chr '0', chr 'x'] ++ numeralIn base n) props
        else strText (numeralIn base n) props := by
  have hne : ¬ (Nat.digits base n).map (digits.getD · 0) = [] := by
    simpa using Nat.digits_ne_nil_iff_ne_zero.2 hpos
  unfold unsignedText printUnsigned
  simp only [unsignedIndices_eq hbase hn, hne, if_false, numeralIn, hpos]
  split
  · split
    · rw [printStr_put]
      exact congrArg Unlimited.text (put_unlimited [chr '0', chr 'x'] _)
    · rw [List.reverse_append]
      rfl
  · rfl

/-- `print_unsigned` makes the text of C99. -/
theorem unsignedText_c99 (d : Layout) {base n : Nat} (hbase : 1 < base) (hn : n < base ^ 64) :
    unsignedText n base d.props = d.unsigned base n := by
  have hlen : (numeralIn base n).length ≤ 64 := (numeralIn_length_le_iff hbase (by decide)).2 hn
  have hrange := d.npad_range
  -- a prefix that goes through `print_str` with the digits, or no prefix
  have hstr : ∀ sign : List UInt8, sign.length ≤ 2 → (d.adjust = .zero → sign = []) →
      strText (sign ++ numeralIn base n) d.props
        = c99Field d.adjust d.minimum sign (numeralIn base n) := by
    intro sign hsign hzero
    rw [strText_eq (by rw [List.length_append]; omega) hrange, padded_c99 d _ hzero]
  unfold Layout.unsigned
  by_cases hzero : n = 0
  · subst hzero
    rw [if_neg fun h => h.2.2 rfl, unsignedText_zero, ← hstr [] (by decide) fun _ => rfl]
    rfl
  rw [unsignedText_pos hbase hn hzero, show d.props.alternate = d.alternate from rfl]
  by_cases halt : d.alternate = true ∧ base = 16
  · have hstart : d.alternate = true ∧ base = 16 ∧ n ≠ 0 := ⟨halt.1, halt.2, hzero⟩
    rw [if_pos halt, if_pos hstart]
    by_cases hpad : d.adjust = .zero
    · -- the prefix stands in front of the field, which is two characters shorter
      have hnpad : (if (0 : Int) < d.minimum then max ((d.minimum : Int) - 2) 0 else d.minimum)
          = ((d.minimum - 2 : Nat) : Int) := by
        split
        · omega
        · omega
      have hmin := d.minimum_lt
      rw [Layout.props_zero hpad, if_pos rfl, hpad]
      show [chr '0', chr 'x'] ++ strText (numeralIn base n) ⟨chr '0', _, d.alternate⟩ = _
      rw [hnpad, strText_eq (by omega) ⟨by show (_ : Int) ≤ (d.minimum - 2 : Nat); omega,
        by show ((d.minimum - 2 : Nat) : Int) < _; omega⟩, padded_right, Nat.sub_sub, Nat.add_comm 2]
      rfl
    · have hblank : d.props.pad ≠ chr '0' := by
        show (if d.adjust = .zero then chr '0' else chr ' ') ≠ chr '0'
        rw [if_neg hpad]
        decide
      rw [if_neg hblank]
      exact hstr _ (Nat.le_refl 2) fun h => absurd h hpad
  · rw [if_neg halt, if_neg fun h => halt ⟨h.1, h.2.1⟩, ← hstr [] (by decide) fun _ => rfl]
    rfl

/-! ## Unsigned numbers and strings -/

theorem unsignedType_width (m : Length) : (unsignedType m.longs).width = m.bits := by
  cases m <;> rfl

theorem signedType_width (m : Length) : (signedType m.longs).width = m.bits := by
  cases m <;> rfl

theorem Length.two_pow_bits_le (m : Length) : 2 ^ m.bits ≤ 2 ^ 64 := by
  cases m <;> decide

/-- The buffer of `print_unsigned` has room for every argument. -/
theorem Layout.value_lt (d : Layout) (w : Nat) {base : Nat} (hbase : 2 ≤ base) :
    w % 2 ^ d.length.bits < base ^ 64 := by
  have hlt := Nat.mod_lt w (Nat.two_pow_pos d.length.bits)
  have hpow : 2 ^ 64 ≤ base ^ 64 := Nat.pow_le_pow_left hbase 64
  have hle := d.length.two_pow_bits_le
  omega

theorem prints_u (outside : Int → UInt8) (d : Layout) (w : Nat) :
    Prints outside (d.format (chr 'u')) [.word w] (d.unsigned 10 (w % 2 ^ d.length.bits)) := by
  rw [← unsignedText_c99 d (by decide) (d.value_lt w (by decide)), ← unsignedType_width]
  exact prints_layout outside d (by decide) (by decide) (by decide) fun fmt scan ds => ⟨_, rfl⟩

theorem prints_x (outside : Int → UInt8) (d : Layout) (w : Nat) :
    Prints outside (d.format (chr 'x')) [.word w] (d.unsigned 16 (w % 2 ^ d.length.bits)) := by
  rw [← unsignedText_c99 d (by decide) (d.value_lt w (by decide)), ← unsignedType_width]
  exact prints_layout outside d (by decide) (by decide) (by decide) fun fmt scan ds => ⟨_, rfl⟩

theorem prints_s (outside : Int → UInt8) (d : Layout) {s : List UInt8} (hs : s.length < 2 ^ 31) :
    Prints outside (d.format (chr 's')) [.str s] (d.string s) := by
  have htext : strText s d.props = d.string s := by
    rw [strText_eq hs d.npad_range, Layout.string, ← padded_c99 d s fun _ => rfl, List.nil_append]
  rw [← htext]
  exact prints_layout outside d (by decide) (by decide) (by decide) fun fmt scan ds => ⟨_, rfl⟩

/-- The directive of a string: an optional `-` and a width. -/
def strLayout (left : Bool) (width : Option Width) : Layout :=
  ⟨false, if left then .left else .right, width, .none⟩

/-- For every directive and every argument of its type, `%u`, `%x` and `%s`
produce the text of C99. -/
theorem layout_c99 (outside : Int → UInt8) (d : Layout) (w : Nat) (left : Bool)
    (width : Option Width) (s : List UInt8) (hs : s.length < 2 ^ 31) :
    (∃ fuel, output outside fuel (d.format (chr 'u')) [.word w]
      = some (d.unsigned 10 (w % 2 ^ d.length.bits))) ∧
    (∃ fuel, output outside fuel (d.format (chr 'x')) [.word w]
      = some (d.unsigned 16 (w % 2 ^ d.length.bits))) ∧
    ∃ fuel, output outside fuel ((strLayout left width).format (chr 's')) [.str s]
      = some ((strLayout left width).string s) :=
  ⟨(prints_u outside d w).exists_output, (prints_x outside d w).exists_output,
    (prints_s outside (strLayout left width) hs).exists_output⟩

/-- A number between its prefix and its zeros, and a string on the left. -/
theorem layout_c99_prefix :
    (∃ fuel, output (fun _ => 0) fuel (ascii "%#08x") [.word 255] = some (ascii "0x0000ff")) ∧
      ∃ fuel, output (fun _ => 0) fuel (ascii "%-5s") [.str (ascii "ipi")] = some (ascii "ipi  ") := by
  have h := layout_c99 (fun _ => 0) ⟨true, .zero, some ⟨8, by decide⟩, .none⟩ 255 true
    (some ⟨5, by decide⟩) (ascii "ipi") (by decide)
  have hformat : Layout.format ⟨true, .zero, some ⟨8, by decide⟩, .none⟩ (chr 'x')
      = ascii "%#08x" := by decide +kernel
  have hstring : (strLayout true (some ⟨5, by decide⟩)).format (chr 's') = ascii "%-5s" := by
    decide +kernel
  have htext : Layout.unsigned ⟨true, .zero, some ⟨8, by decide⟩, .none⟩ 16 (255 % 2 ^ 32)
      = ascii "0x0000ff" := by decide +kernel
  have hblanks : (strLayout true (some ⟨5, by decide⟩)).string (ascii "ipi") = ascii "ipi  " := by
    decide +kernel
  rw [← hformat, ← hstring, ← htext, ← hblanks]
  exact h.2

/-! ## Signed numbers -/

theorem Length.bmod_range (m : Length) (x : Int) :
    -2 ^ 63 ≤ Int.bmod x (2 ^ m.bits) ∧ Int.bmod x (2 ^ m.bits) < 2 ^ 63 := by
  cases m with
  | none =>
    have hle : -2 ^ 31 ≤ Int.bmod x (2 ^ 32) := Int.le_bmod (m := 2 ^ 32) (by decide)
    have hlt : Int.bmod x (2 ^ 32) < 2 ^ 31 := Int.bmod_lt (m := 2 ^ 32) (by decide)
    show -2 ^ 63 ≤ Int.bmod x (2 ^ 32) ∧ Int.bmod x (2 ^ 32) < 2 ^ 63
    omega
  | _ => exact toInt64_range x

/-- The text of `%d`, with the sign and the digits in one string. -/
theorem prints_d (outside : Int → UInt8) (d : Layout) (w : Nat) :
    Prints outside (d.format (chr 'd')) [.word w]
      (strText (cString (intBuffer outside (Int.bmod w (2 ^ d.length.bits)) 10).reverse)
        d.props) := by
  rw [← signedType_width, ← Int.emod_bmod]
  exact prints_layout outside d (by decide) (by decide) (by decide) fun fmt scan ds => ⟨_, rfl⟩

theorem mem_c99Field {adjust : Adjust} {w : Nat} {sign body : List UInt8} {c : UInt8}
    (h : c ∈ c99Field adjust w sign body) : c ∈ sign ∨ c ∈ body ∨ c = chr ' ' ∨ c = chr '0' := by
  unfold c99Field at h
  cases adjust with
  | right =>
    simp only [List.mem_append, List.mem_replicate] at h
    tauto
  | zero =>
    simp only [List.mem_append, List.mem_replicate] at h
    tauto
  | left =>
    simp only [List.mem_append, List.mem_replicate] at h
    tauto

theorem signedNumeral_eq (n : Int) :
    signedNumeral n = (if n < 0 then [chr '-'] else []) ++ numeral n.natAbs := by
  unfold signedNumeral
  split <;> rfl

/-- The sign and the digits in one field are the text of C99 unless zeros have
to stand between them. -/
theorem padded_signed_iff (d : Layout) (n : Int) :
    padded (signedNumeral n) d.props = d.signed n ↔
      ¬ (d.adjust = .zero ∧ n < 0 ∧ (signedNumeral n).length < d.minimum) := by
  have hplain : (d.adjust = .zero → ¬ n < 0) → padded (signedNumeral n) d.props = d.signed n := by
    intro h
    rw [signedNumeral_eq, padded_c99 d _ fun hadjust => if_neg (h hadjust)]
    rfl
  by_cases hbad : d.adjust = .zero ∧ n < 0
  · obtain ⟨hadjust, hneg⟩ := hbad
    have hnumeral : signedNumeral n = chr '-' :: numeral n.natAbs := by
      rw [signedNumeral, if_pos hneg]
    have hsigned : d.signed n = chr '-' ::
        (List.replicate (d.minimum - (signedNumeral n).length) (chr '0') ++ numeral n.natAbs) := by
      rw [Layout.signed, if_pos hneg, hadjust, hnumeral]
      rfl
    rw [hsigned, Layout.props_zero hadjust, padded_right]
    by_cases hshort : (signedNumeral n).length < d.minimum
    · -- the first character is a zero, and should be the sign
      obtain ⟨k, hk⟩ := Nat.exists_eq_add_of_lt hshort
      have hmissing : d.minimum - (signedNumeral n).length = k + 1 := by omega
      refine ⟨fun h => ?_, fun h => absurd ⟨hadjust, hneg, hshort⟩ h⟩
      rw [hmissing, List.replicate_succ] at h
      exact absurd (List.cons.inj h).1 (by decide)
    · rw [Nat.sub_eq_zero_of_le (Nat.le_of_not_lt hshort), hnumeral]
      refine ⟨fun _ h => hshort ?_, fun _ => rfl⟩
      rw [hnumeral]
      exact h.2.2
  · exact ⟨fun _ h => hbad ⟨h.1, h.2.1⟩, fun _ => hplain fun hadjust hneg => hbad ⟨hadjust, hneg⟩⟩

/-- The least 64-bit integer prints bytes from in front of the digit table. -/
theorem mem_intBuffer_least :
    chr 'x' ∈ cString (intBuffer (fun _ => chr 'x') (-2 ^ 63) 10).reverse ∧
      (cString (intBuffer (fun _ => chr 'x') (-2 ^ 63) 10).reverse).length < 2 ^ 31 := by
  decide +kernel

theorem mem_padded {s : List UInt8} {props : StrProps} {c : UInt8} (h : c ∈ s) :
    c ∈ padded s props := by
  unfold padded
  split
  · exact List.mem_append_right _ h
  · exact List.mem_append_left _ h

/-- For every directive `%d` with an optional `0` or `-`, width and length
modifier, and every argument of its type: the text is the one of C99,
whatever stands around the digit table, if and only if the number is not the
least 64-bit integer and no zeros have to stand behind a minus sign. -/
theorem signed_layout_iff (adjust : Adjust) (width : Option Width) (length : Length) (w : Nat) :
    (∀ outside : Int → UInt8,
      ∃ fuel, output outside fuel (Layout.format ⟨false, adjust, width, length⟩ (chr 'd')) [.word w]
        = some (Layout.signed ⟨false, adjust, width, length⟩ (Int.bmod w (2 ^ length.bits)))) ↔
      Int.bmod w (2 ^ length.bits) ≠ -2 ^ 63 ∧
        ¬ (adjust = .zero ∧ Int.bmod w (2 ^ length.bits) < 0 ∧
          (signedNumeral (Int.bmod w (2 ^ length.bits))).length
            < Layout.minimum ⟨false, adjust, width, length⟩) := by
  obtain ⟨d, hd⟩ : ∃ d : Layout, d = ⟨false, adjust, width, length⟩ := ⟨_, rfl⟩
  obtain ⟨n, hn⟩ : ∃ n, n = Int.bmod w (2 ^ length.bits) := ⟨_, rfl⟩
  have hprint : ∀ outside, ∃ fuel, output outside fuel (d.format (chr 'd')) [.word w]
      = some (strText (cString (intBuffer outside n 10).reverse) d.props) := by
    intro outside
    have h := (prints_d outside d w).exists_output
    rw [hn]
    rw [hd] at h ⊢
    exact h
  have hrange := Length.bmod_range length w
  rw [← hn] at hrange
  have hadjust : adjust = d.adjust := by rw [hd]
  rw [← hd, ← hn, hadjust, ← padded_signed_iff]
  -- what is printed for every number but the least one
  have htext : n ≠ -2 ^ 63 → ∀ outside,
      strText (cString (intBuffer outside n 10).reverse) d.props
        = padded (signedNumeral n) d.props := by
    intro hne outside
    have hlen := signedNumeral_length hrange.1 hrange.2
    rw [intBuffer_reverse outside (by omega) hrange.2, cString_of_no_nul (signedNumeral_no_nul n),
      strText_eq (by omega) d.npad_range]
  constructor
  · intro h
    have hne : n ≠ -2 ^ 63 := by
      intro hleast
      obtain ⟨fuel, hout⟩ := h fun _ => chr 'x'
      obtain ⟨fuel', hout'⟩ := hprint fun _ => chr 'x'
      have hsame := output_unique hout hout'
      rw [hleast, strText_eq mem_intBuffer_least.2 d.npad_range] at hsame
      have hmem : chr 'x' ∈ d.signed (-2 ^ 63) := by
        rw [hsame]
        exact mem_padded mem_intBuffer_least.1
      rcases mem_c99Field hmem with hsign | hdigit | hpad | hpad
      · rw [if_pos (by decide), List.mem_singleton] at hsign
        exact absurd hsign (by decide)
      · exact absurd (numeral_isDigit hdigit) (by decide)
      · exact absurd hpad (by decide)
      · exact absurd hpad (by decide)
    obtain ⟨fuel, hout⟩ := h fun _ => 0
    obtain ⟨fuel', hout'⟩ := hprint fun _ => 0
    rw [htext hne] at hout'
    exact ⟨hne, (output_unique hout hout').symm⟩
  · intro ⟨hne, hpadded⟩ outside
    obtain ⟨fuel, hout⟩ := hprint outside
    rw [htext hne, hpadded] at hout
    exact ⟨fuel, hout⟩

/-- `%05d` of -42 prints the zeros in front of the sign, and C99 asks for
them behind it. -/
theorem zeros_before_sign :
    Layout.format ⟨false, .zero, some ⟨5, by decide⟩, .none⟩ (chr 'd') = ascii "%05d" ∧
      output (fun _ => 0) 7 (ascii "%05d") [.word (2 ^ 32 - 42)] = some (ascii "00-42") ∧
      Layout.signed ⟨false, .zero, some ⟨5, by decide⟩, .none⟩
        (Int.bmod (2 ^ 32 - 42 : Nat) (2 ^ Length.none.bits)) = ascii "-0042" := by
  decide +kernel

end HyperBench.Printf

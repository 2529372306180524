import HyperBench.PrintfRun

/-!
# Directives of a format

A directive is a `%`, flags and a terminator.

* `step_flag` says where the scanner goes at a flag, and what becomes of its
  count of length modifiers.
* `stepN_flags` runs over all flags of a directive whose numbers are not too
  long for the counter of `fmtnum`.
* `convert_eq` and `step_terminator` say what a terminator takes from the
  arguments and that it ends the directive.
* `stepN_directives` says that the directives scanned before stay.
-/

namespace HyperBench.Printf

open Ascii CObject

/-! ## Digits -/

/-- A character of a directive between its `%` and its terminator. -/
def isFlag (c : UInt8) : Bool :=
  c = chr '#' ∨ c = chr '-' ∨ isDigit c ∨ c = chr 'l' ∨ c = chr 't' ∨ c = chr 'z'

/-- A character at which `vsnprintf` calls `fmtnum`. -/
def isNumeric (c : UInt8) : Bool := isDigit c ∨ c = chr '-'

theorem isNumeric_of_isDigit {c : UInt8} (h : isDigit c = true) : isNumeric c = true :=
  decide_eq_true (Or.inl h)

/-- The number of digits at the front of a text. -/
def digitsLength (s : List UInt8) : Nat := (s.takeWhile isDigit).length

theorem digitsLength_cons_of_digit {c : UInt8} (h : isDigit c = true) (s : List UInt8) :
    digitsLength (c :: s) = digitsLength s + 1 := by
  rw [digitsLength, List.takeWhile_cons_of_pos h, List.length_cons, digitsLength]

theorem digitsLength_cons_of_not {c : UInt8} (h : isDigit c = false) (s : List UInt8) :
    digitsLength (c :: s) = 0 := by
  rw [digitsLength, List.takeWhile_cons_of_neg (by rw [h]; exact Bool.false_ne_true)]
  rfl

/-- The digits behind the first `k` ones. -/
theorem digitsLength_drop {k : Nat} {s : List UInt8} (h : k ≤ digitsLength s) :
    digitsLength (s.drop k) = digitsLength s - k := by
  induction k generalizing s with
  | zero => rfl
  | succ k ih =>
    cases s with
    | nil => simp [digitsLength] at h
    | cons c s =>
      cases hc : isDigit c with
      | false =>
        rw [digitsLength_cons_of_not hc] at h
        omega
      | true =>
        rw [digitsLength_cons_of_digit hc] at h ⊢
        rw [List.drop_succ_cons, ih (by omega)]
        omega

theorem numberLength_cons_of_numeric {c : UInt8} (h : isNumeric c = true) (s : List UInt8) :
    numberLength (c :: s) = digitsLength s + 1 := by
  unfold numberLength
  by_cases hsign : c = chr '-'
  · simp only [List.headD_cons, hsign, if_true, List.drop_succ_cons, List.drop_zero]
    exact Nat.add_comm 1 _
  · have hdigit : isDigit c = true := by simpa [isNumeric, hsign] using h
    simp only [List.headD_cons, hsign, if_false, List.drop_zero, Nat.zero_add]
    exact digitsLength_cons_of_digit hdigit s

theorem numberLength_cons_of_not {c : UInt8} (h : isNumeric c = false) (s : List UInt8) :
    numberLength (c :: s) = 0 := by
  have hnot : isDigit c = false ∧ c ≠ chr '-' := by simpa [isNumeric] using h
  unfold numberLength
  simp only [List.headD_cons, hnot.2, if_false, List.drop_zero, Nat.zero_add]
  exact digitsLength_cons_of_not hnot.1 s

theorem digitsLength_le (s : List UInt8) : digitsLength s ≤ s.length :=
  (List.takeWhile_prefix isDigit).length_le

theorem numberLength_le (s : List UInt8) : numberLength s ≤ s.length := by
  cases s with
  | nil => decide
  | cons c s =>
    cases hc : isNumeric c with
    | false =>
      rw [numberLength_cons_of_not hc]
      exact Nat.zero_le _
    | true =>
      rw [numberLength_cons_of_numeric hc]
      exact Nat.succ_le_succ (digitsLength_le s)

/-- A text that starts with a digit has no sign. -/
theorem numberLength_of_digits {s : List UInt8} (h : 0 < digitsLength s) :
    numberLength s = digitsLength s := by
  cases s with
  | nil => cases h
  | cons c s =>
    have hc : isDigit c = true := by
      by_contra hnot
      rw [digitsLength_cons_of_not (Bool.eq_false_iff.2 hnot)] at h
      cases h
    rw [numberLength_cons_of_numeric (isNumeric_of_isDigit hc), digitsLength_cons_of_digit hc]

/-- What is left of a number behind its first character. -/
theorem numberLength_drop {k : Nat} {s : List UInt8} (h : k < numberLength s) (hk : 0 < k) :
    numberLength (s.drop k) = numberLength s - k := by
  cases s with
  | nil => exact absurd h (Nat.not_lt_zero k)
  | cons c s =>
    cases hc : isNumeric c with
    | false =>
      rw [numberLength_cons_of_not hc] at h
      omega
    | true =>
      obtain ⟨j, rfl⟩ : ∃ j, k = j + 1 := ⟨k - 1, by omega⟩
      rw [numberLength_cons_of_numeric hc] at h ⊢
      have hdrop := digitsLength_drop (s := s) (k := j) (by omega)
      rw [List.drop_succ_cons, numberLength_of_digits (by omega), hdrop]
      omega

/-- The digits of a text end where the text behind it starts without one. -/
theorem digitsLength_append {s rest : List UInt8} (h : isDigit (rest.headD 0) = false) :
    digitsLength (s ++ rest) = digitsLength s := by
  induction s with
  | nil =>
    cases rest with
    | nil => rfl
    | cons c rest => exact digitsLength_cons_of_not h rest
  | cons c s ih =>
    cases hc : isDigit c with
    | false => rw [List.cons_append, digitsLength_cons_of_not hc, digitsLength_cons_of_not hc]
    | true => rw [List.cons_append, digitsLength_cons_of_digit hc, digitsLength_cons_of_digit hc, ih]

theorem numberLength_append {s rest : List UInt8} (h : isNumeric (rest.headD 0) = false) :
    numberLength (s ++ rest) = numberLength s := by
  have hdigit : isDigit (rest.headD 0) = false := by
    simp only [isNumeric, decide_eq_false_iff_not, not_or] at h
    exact Bool.eq_false_iff.2 h.1
  cases s with
  | nil =>
    cases rest with
    | nil => rfl
    | cons c rest => exact numberLength_cons_of_not h rest
  | cons c s =>
    cases hc : isNumeric c with
    | false => rw [List.cons_append, numberLength_cons_of_not hc, numberLength_cons_of_not hc]
    | true =>
      rw [List.cons_append, numberLength_cons_of_numeric hc, numberLength_cons_of_numeric hc,
        digitsLength_append hdigit]

theorem numeric_of_mem_take {s : List UInt8} {c : UInt8} (h : c ∈ s.take (numberLength s)) :
    isNumeric c = true := by
  cases s with
  | nil => cases h
  | cons d s =>
    cases hd : isNumeric d with
    | false =>
      rw [numberLength_cons_of_not hd] at h
      cases h
    | true =>
      rw [numberLength_cons_of_numeric hd, List.take_succ_cons] at h
      rcases List.mem_cons.1 h with rfl | hmem
      · exact hd
      · have hdigits : s.take (digitsLength s) = s.takeWhile isDigit :=
          List.prefix_iff_eq_take.1 (List.takeWhile_prefix isDigit) |>.symm
        rw [hdigits] at hmem
        have hdigit : isDigit c = true := List.mem_takeWhile_imp hmem
        exact isNumeric_of_isDigit hdigit

/-! ## Flags -/

/-- The characters that `fmtnum` counts at the flag `c` in front of `t`. -/
def numberAt (c : UInt8) (t : List UInt8) : Nat :=
  if c = chr '0' then numberLength t else if isNumeric c then numberLength (c :: t) else 0

/-- The characters of the flag `c` in front of `t`, with its number. -/
def flagLength (c : UInt8) (t : List UInt8) : Nat :=
  if c = chr '0' then numberLength t + 1 else if isNumeric c then numberLength (c :: t) else 1

/-- How far the pointer moves at the flag `c` in front of `t`. -/
def advance (c : UInt8) (t : List UInt8) : Int :=
  if c = chr '0' then 1 + toInt32 (numberLength t)
  else if isNumeric c then toInt32 (numberLength (c :: t))
  else 1

/-- `nlong` behind the flag `c`. -/
def bump (nlong : Int) (c : UInt8) : Int :=
  if c = chr 'l' then toInt32 (nlong + 1) else if c = chr 't' ∨ c = chr 'z' then 1 else nlong

/-- The lengths of the numbers in a run of flags, as `fmtnum` counts them,
with 0 for a flag that is no number.  The run has at most `n` flags. -/
def numbers : Nat → List UInt8 → List Nat
  | 0, _ => []
  | _ + 1, [] => []
  | n + 1, c :: t => numberAt c t :: numbers n ((c :: t).drop (flagLength c t))

theorem flagLength_pos (c : UInt8) (t : List UInt8) : 0 < flagLength c t := by
  unfold flagLength
  split
  · exact Nat.succ_pos _
  · split
    · rename_i hc
      rw [numberLength_cons_of_numeric hc]
      exact Nat.succ_pos _
    · exact Nat.one_pos

theorem flagLength_le (c : UInt8) (t : List UInt8) : flagLength c t ≤ t.length + 1 := by
  unfold flagLength
  split
  · exact Nat.succ_le_succ (numberLength_le t)
  · split
    · exact numberLength_le (c :: t)
    · omega

/-- The pointer moves over the flag if the counter of `fmtnum` does not
wrap. -/
theorem advance_eq {c : UInt8} {t : List UInt8} (h : numberAt c t < 2 ^ 31) :
    advance c t = flagLength c t := by
  unfold numberAt at h
  unfold advance flagLength
  split
  · rename_i hc
    rw [if_pos hc] at h
    rw [toInt32_of_mem (by omega) (by omega)]
    omega
  · rename_i hc
    rw [if_neg hc] at h
    split
    · rename_i hnum
      rw [if_pos hnum] at h
      exact toInt32_of_mem (by omega) (by omega)
    · rfl

theorem bump_of_numeric {c : UInt8} (h : isNumeric c = true) (nlong : Int) :
    bump nlong c = nlong := by
  have hl : c ≠ chr 'l' := by
    rintro rfl
    exact absurd h (by decide)
  have htz : ¬ (c = chr 't' ∨ c = chr 'z') := by
    rintro (rfl | rfl)
    · exact absurd h (by decide)
    · exact absurd h (by decide)
  rw [bump, if_neg hl, if_neg htz]

theorem foldl_bump_of_numeric {w : List UInt8} (h : ∀ c ∈ w, isNumeric c = true) (nlong : Int) :
    w.foldl bump nlong = nlong := by
  induction w with
  | nil => rfl
  | cons c w ih =>
    rw [List.foldl_cons, bump_of_numeric (h c List.mem_cons_self),
      ih fun d hd => h d (List.mem_cons_of_mem c hd)]

/-- The characters of a number do not change the count of length
modifiers. -/
theorem foldl_bump_flag (c : UInt8) (t : List UInt8) (nlong : Int) :
    (c :: t).foldl bump nlong = ((c :: t).drop (flagLength c t)).foldl bump (bump nlong c) := by
  have hrest : ∀ d ∈ t.take (flagLength c t - 1), isNumeric d = true := by
    intro d hd
    unfold flagLength at hd
    split at hd
    · exact numeric_of_mem_take hd
    · split at hd
      · rename_i hnum
        refine numeric_of_mem_take (s := c :: t) ?_
        rw [numberLength_cons_of_numeric hnum] at hd ⊢
        exact List.mem_cons_of_mem c hd
      · cases hd
  obtain ⟨k, hk⟩ : ∃ k, flagLength c t = k + 1 :=
    Nat.exists_eq_add_one.2 (flagLength_pos c t)
  rw [hk, Nat.add_sub_cancel] at hrest
  rw [hk, List.drop_succ_cons, List.foldl_cons]
  conv_lhs => rw [← List.take_append_drop k t]
  rw [List.foldl_append, foldl_bump_of_numeric hrest]

section Flags

variable {σ : Type} {s : List UInt8}

/-- The cases of the `switch` for a number. -/
theorem number_case_iff {c : UInt8} :
    (chr '1' ≤ c ∧ c ≤ chr '9' ∨ c = chr '-') ↔ isNumeric c = true ∧ c ≠ chr '0' := by
  have h0 : (chr '0').toNat = 48 := rfl
  have h1 : (chr '1').toNat = 49 := rfl
  have h2 : (chr '-').toNat = 45 := rfl
  have hnum : isNumeric c = true ↔ (chr '0' ≤ c ∧ c ≤ chr '9') ∨ c = chr '-' := by
    simp [isNumeric, isDigit]
  rw [hnum]
  simp only [UInt8.le_iff_toNat_le, ne_eq, ← UInt8.toNat_inj]
  omega

theorem readWidth_eq (st : Printer σ) {j : Nat} (hj : st.fmt = j + 1) (hle : j ≤ s.length)
    (props : StrProps) (nlong : Int) :
    readWidth (terminated s) st props nlong
      = some { st with
          fmt := j + toInt32 (numberLength (s.drop j))
          scan := .directive { props with npad := toInt32 (atolText (s.drop j)) } nlong } := by
  unfold readWidth
  rw [hj, Int.add_sub_cancel, fmtnum_eq hle]
  rfl

variable [Sink σ] (outside : Int → UInt8)

/-- The properties behind the flag `c` in front of `t`. -/
def flagProps (props : StrProps) (c : UInt8) (t : List UInt8) : StrProps :=
  if c = chr '#' then { props with alternate := true }
  else if c = chr '0' then { props with pad := chr '0', npad := toInt32 (atolText t) }
  else if isNumeric c then { props with npad := toInt32 (atolText (c :: t)) }
  else props

/-- A round at a flag. -/
theorem step_flag {i : Nat} {c : UInt8} {t : List UInt8} (hdrop : s.drop i = c :: t)
    (hc : isFlag c = true) (p : σ) (args : List Arg) (props : StrProps) (nlong : Int)
    (ds : List Directive) :
    step outside (terminated s) ⟨p, args, i, .directive props nlong, ds⟩
      = some ⟨p, args, i + advance c t, .directive (flagProps props c t) (bump nlong c), ds⟩ := by
  have hlt := lt_length_of_drop hdrop
  have hnext : s.drop (i + 1) = t := drop_succ_of_drop hdrop
  have hload : load (terminated s) i = some c := by
    rw [load_terminated (Nat.le_of_lt hlt), hdrop, List.headD_cons]
  have hnul : c ≠ 0 := by
    rintro rfl
    exact absurd hc (by decide)
  unfold step flagProps
  rw [hload]
  show scanDirective outside (terminated s)
    ⟨p, args, (i : Int) + 1, .directive props nlong, ds⟩ props nlong c = _
  unfold scanDirective
  rw [if_neg hnul]
  by_cases hhash : c = chr '#'
  · subst hhash
    rfl
  rw [if_neg hhash, if_neg hhash]
  by_cases hzero : c = chr '0'
  · have hwidth := readWidth_eq (s := s) (j := i + 1)
      ⟨p, args, (i : Int) + 1 + 1, .directive props nlong, ds⟩ rfl hlt
      { props with pad := chr '0' } nlong
    have hfmt : ((i + 1 : Nat) : Int) + toInt32 (numberLength t)
        = i + (1 + toInt32 (numberLength t)) := by omega
    rw [if_pos hzero, if_pos hzero, hwidth, advance, if_pos hzero, hnext, hfmt,
      bump_of_numeric (by rw [hzero]; decide)]
  rw [if_neg hzero, if_neg hzero]
  by_cases hnum : isNumeric c = true
  · have hwidth := readWidth_eq (s := s) (j := i)
      ⟨p, args, (i : Int) + 1, .directive props nlong, ds⟩ rfl (Nat.le_of_lt hlt) props nlong
    rw [if_pos (number_case_iff.2 ⟨hnum, hzero⟩), if_pos hnum, hwidth, advance, if_neg hzero,
      if_pos hnum, hdrop, bump_of_numeric hnum]
  · rw [if_neg fun h => hnum (number_case_iff.1 h).1, if_neg hnum, advance, if_neg hzero,
      if_neg hnum]
    by_cases hl : c = chr 'l'
    · rw [if_pos hl, bump, if_pos hl]
    · have htz : c = chr 't' ∨ c = chr 'z' := by
        simp only [isNumeric, decide_eq_true_eq, not_or] at hnum
        simpa [isFlag, hhash, hl, hnum] using hc
      rw [if_neg hl, if_pos htz, bump, if_neg hl, if_pos htz]

/-- A run over the flags of a directive. -/
theorem stepN_flags {n : Nat} {run rest : List UInt8} {i : Nat} (hn : run.length ≤ n)
    (hdrop : s.drop i = run ++ rest) (hrun : ∀ c ∈ run, isFlag c = true)
    (hrest : isNumeric (rest.headD 0) = false) (hcount : ∀ k ∈ numbers n run, k < 2 ^ 31)
    (p : σ) (args : List Arg) (props : StrProps) (nlong : Int) (ds : List Directive) :
    ∃ m props', stepN outside (terminated s) m ⟨p, args, i, .directive props nlong, ds⟩
      = some ⟨p, args, (i + run.length : Nat), .directive props' (run.foldl bump nlong), ds⟩ := by
  induction n generalizing run i props nlong with
  | zero =>
    obtain rfl : run = [] := List.length_eq_zero_iff.1 (by omega)
    exact ⟨0, props, rfl⟩
  | succ n ih =>
    cases run with
    | nil => exact ⟨0, props, rfl⟩
    | cons c t =>
      have hflag := hrun c List.mem_cons_self
      have hcons : s.drop i = c :: (t ++ rest) := hdrop
      have hstep := step_flag outside hcons hflag p args props nlong ds
      have hpos := flagLength_pos c t
      have hle := flagLength_le c t
      -- the number that `fmtnum` sees ends with the run
      have hsame : advance c (t ++ rest) = flagLength c t := by
        rw [← advance_eq (hcount _ List.mem_cons_self), advance, advance, numberLength_append hrest,
          ← List.cons_append, numberLength_append hrest]
      have hdrop' : s.drop (i + flagLength c t) = (c :: t).drop (flagLength c t) ++ rest := by
        rw [← List.drop_drop, hdrop, List.drop_append_of_le_length (by rw [List.length_cons]; omega)]
      obtain ⟨m, props', hrest'⟩ := ih (by rw [List.length_drop, List.length_cons] at *; omega) hdrop'
        (fun d hd => hrun d (List.mem_of_mem_drop hd))
        (fun k hk => hcount k (List.mem_cons_of_mem _ hk)) (flagProps props c (t ++ rest))
        (bump nlong c)
      refine ⟨m + 1, props', ?_⟩
      rw [hsame] at hstep
      rw [stepN_succ_of_step hstep, ← Nat.cast_add, hrest', ← foldl_bump_flag, List.length_drop,
        List.length_cons, Nat.add_assoc, Nat.add_sub_cancel' hle]

end Flags

/-! ## Terminators -/

/-- The type of the argument for the terminator `c` behind `nlong` length
modifiers. -/
def takes (c : UInt8) (nlong : Int) : Option VaType :=
  if c = chr 'c' then some .int
  else if c = chr 'd' then some (signedType nlong)
  else if c = chr 'u' ∨ c = chr 'x' then some (unsignedType nlong)
  else if c = chr 'p' then some .voidPtr
  else if c = chr 's' then some .charPtr
  else none

/-- The arguments that are left when one of the type was taken. -/
def takeArg : Option VaType → List Arg → Option (List Arg)
  | none, args => some args
  | some .charPtr, .str _ :: args => some args
  | some .charPtr, _ => none
  | some _, .word _ :: args => some args
  | some _, _ => none

theorem takeArg_word {t : VaType} (ht : t ≠ .charPtr) (args : List Arg) :
    takeArg (some t) args = (vaWord t args).map (·.2) := by
  cases t with
  | charPtr => exact absurd rfl ht
  | _ =>
    cases args with
    | nil => rfl
    | cons a args => cases a <;> rfl

theorem takeArg_str (args : List Arg) : takeArg (some .charPtr) args = (vaStr args).map (·.2) := by
  cases args with
  | nil => rfl
  | cons a args => cases a <;> rfl

theorem signedType_ne_charPtr (nlong : Int) : signedType nlong ≠ .charPtr := by
  unfold signedType
  split
  · exact nofun
  · split <;> exact nofun

theorem unsignedType_ne_charPtr (nlong : Int) : unsignedType nlong ≠ .charPtr := by
  unfold unsignedType
  split
  · exact nofun
  · split <;> exact nofun

section Terminators

variable {σ : Type} [Sink σ] (outside : Int → UInt8) {s : List UInt8}

/-- A conversion takes the argument of its type and ends the directive. -/
theorem convert_eq (st : Printer σ) (props : StrProps) (nlong : Int) (f : UInt8) :
    ∃ p, convert outside st props nlong f
      = (takeArg (takes f nlong) st.args).map (st.emit (takes f nlong) p) := by
  -- a conversion with an argument prints what it reads
  have hword : ∀ (t : VaType) (print : Nat → σ), t ≠ .charPtr →
      ∃ p, (vaWord t st.args).bind (fun a => some (st.emit (some t) (print a.1) a.2))
        = (takeArg (some t) st.args).map (st.emit (some t) p) := by
    intro t print ht
    rw [takeArg_word ht]
    cases vaWord t st.args with
    | none => exact ⟨st.stream, rfl⟩
    | some a => exact ⟨print a.1, rfl⟩
  unfold convert takes
  by_cases hpercent : f = chr '%'
  · subst hpercent
    exact ⟨_, rfl⟩
  rw [if_neg hpercent]
  by_cases hc : f = chr 'c'
  · simp only [hc, if_true]
    exact hword .int (fun w => addchar st.stream (UInt8.ofNat w)) nofun
  rw [if_neg hc, if_neg hc]
  by_cases hd : f = chr 'd'
  · simp only [hd, if_true]
    exact hword (signedType nlong)
      (fun w => printInt outside st.stream (Int.bmod w (2 ^ (signedType nlong).width)) 10 props)
      (signedType_ne_charPtr nlong)
  rw [if_neg hd, if_neg hd]
  by_cases hu : f = chr 'u'
  · simp only [hu, true_or, if_true]
    exact hword (unsignedType nlong) (fun w => printUnsigned st.stream w 10 props)
      (unsignedType_ne_charPtr nlong)
  rw [if_neg hu]
  by_cases hx : f = chr 'x'
  · simp only [hx, or_true, if_true]
    exact hword (unsignedType nlong) (fun w => printUnsigned st.stream w 16 props)
      (unsignedType_ne_charPtr nlong)
  rw [if_neg hx, if_neg (not_or.2 ⟨hu, hx⟩)]
  by_cases hp : f = chr 'p'
  · simp only [hp, if_true]
    exact hword .voidPtr
      (fun w => printUnsigned st.stream w 16 { props with alternate := true }) nofun
  rw [if_neg hp, if_neg hp]
  by_cases hs : f = chr 's'
  · simp only [hs, if_true, takeArg_str]
    cases vaStr st.args with
    | none => exact ⟨st.stream, rfl⟩
    | some a => exact ⟨_, rfl⟩
  · rw [if_neg hs, if_neg hs]
    exact ⟨_, rfl⟩

/-- A round at a conversion. -/
theorem step_conversion {i : Nat} {c : UInt8} (hle : i ≤ s.length)
    (hhead : (s.drop i).headD 0 = c) (hc : isFlag c = false) (hnul : c ≠ 0) (p : σ)
    (args : List Arg) (props : StrProps) (nlong : Int) (ds : List Directive) :
    step outside (terminated s) ⟨p, args, i, .directive props nlong, ds⟩
      = convert outside ⟨p, args, (i : Int) + 1, .directive props nlong, ds⟩ props nlong c := by
  have hflag : c ≠ chr '#' ∧ c ≠ chr '-' ∧ ¬ isDigit c = true ∧ c ≠ chr 'l' ∧ c ≠ chr 't' ∧
      c ≠ chr 'z' := by
    simpa only [isFlag, decide_eq_false_iff_not, not_or] using hc
  have hnum : ¬ (chr '1' ≤ c ∧ c ≤ chr '9' ∨ c = chr '-') := by
    rw [number_case_iff]
    intro h
    simp [isNumeric, hflag.2.2.1, hflag.2.1] at h
  have hzero : c ≠ chr '0' := by
    rintro rfl
    exact hflag.2.2.1 (by decide)
  unfold step
  rw [load_terminated hle, hhead]
  show scanDirective outside (terminated s)
    ⟨p, args, (i : Int) + 1, .directive props nlong, ds⟩ props nlong c = _
  unfold scanDirective
  rw [if_neg hnul, if_neg hflag.1, if_neg hzero, if_neg hnum, if_neg hflag.2.2.2.1,
    if_neg (not_or.2 hflag.2.2.2.2)]

/-- A round at the end of a directive.  The NUL is read again. -/
theorem step_terminator {i : Nat} {c : UInt8} (hle : i ≤ s.length) (hhead : (s.drop i).headD 0 = c)
    (hc : isFlag c = false) (p : σ) (args : List Arg) (props : StrProps) (nlong : Int)
    (ds : List Directive) :
    ∃ p', step outside (terminated s) ⟨p, args, i, .directive props nlong, ds⟩
      = (takeArg (takes c nlong) args).map fun rest =>
          ⟨p', rest, if c = 0 then i else i + 1, .text, ds ++ [⟨i, takes c nlong⟩]⟩ := by
  have hlast : ((i : Int) + 1 - 1) = i := Int.add_sub_cancel _ _
  by_cases hnul : c = 0
  · subst hnul
    refine ⟨p, ?_⟩
    unfold step
    rw [load_terminated hle, hhead]
    show some (⟨p, args, (i : Int) + 1 - 1, .text, ds ++ [⟨(i : Int) + 1 - 1, none⟩]⟩ : Printer σ) = _
    rw [hlast]
    rfl
  · obtain ⟨p', hconv⟩ := convert_eq outside ⟨p, args, (i : Int) + 1, .directive props nlong, ds⟩
      props nlong c
    refine ⟨p', ?_⟩
    rw [step_conversion outside hle hhead hc hnul, hconv]
    congr 1
    funext rest
    rw [if_neg hnul]
    unfold Printer.emit
    rw [hlast]

/-- A round only adds to the directives. -/
theorem step_directives {o : List UInt8} {st st' : Printer σ} (h : step outside o st = some st') :
    st.directives <+: st'.directives := by
  have hwidth : ∀ {st st' : Printer σ} {props : StrProps} {nlong : Int},
      readWidth o st props nlong = some st' → st.directives <+: st'.directives := by
    intro st st' props nlong h
    obtain ⟨a, _, ha⟩ := Option.bind_eq_some_iff.1 h
    obtain rfl := Option.some.inj ha
    exact List.prefix_refl _
  obtain ⟨f, _, h⟩ := Option.bind_eq_some_iff.1 h
  cases hscan : st.scan with
  | text =>
    simp only [hscan] at h
    split_ifs at h
    · obtain rfl := Option.some.inj h
      exact List.prefix_refl _
    · obtain rfl := Option.some.inj h
      exact List.prefix_refl _
  | directive props nlong =>
    simp only [hscan] at h
    unfold scanDirective at h
    split_ifs at h
    · obtain rfl := Option.some.inj h
      exact List.prefix_append _ _
    · obtain rfl := Option.some.inj h
      exact List.prefix_refl _
    · have hstart := hwidth h
      exact hstart
    · have hstart := hwidth h
      exact hstart
    · obtain rfl := Option.some.inj h
      exact List.prefix_refl _
    · obtain rfl := Option.some.inj h
      exact List.prefix_refl _
    · obtain ⟨p, hconv⟩ := convert_eq outside
        ⟨st.stream, st.args, st.fmt + 1, .directive props nlong, st.directives⟩ props nlong f
      rw [hconv] at h
      obtain ⟨rest, _, rfl⟩ := Option.map_eq_some_iff.1 h
      exact List.prefix_append _ _

theorem stepN_directives {o : List UInt8} {n : Nat} {st st' : Printer σ}
    (h : stepN outside o n st = some st') : st.directives <+: st'.directives := by
  induction n generalizing st with
  | zero =>
    obtain rfl : st = st' := Option.some.inj h
    exact List.prefix_refl _
  | succ n ih =>
    obtain ⟨mid, hmid, hrest⟩ := Option.bind_eq_some_iff.1 h
    exact (step_directives outside hmid).trans (ih hrest)

end Terminators

end HyperBench.Printf

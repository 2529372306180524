import HyperBench.PrintfText

/-!
# Rounds of the format scanner

* `stepN` is a number of rounds of `vsnprintf`.  `scanFormat_of_stepN` and
  `stepN_of_scanFormat` tie it to the loop.
* `scanFormat_onto` says that the scanner does not look at its stream: a run
  into a buffer without an end gives the run into every other stream.
* `atol_eq` and `fmtnum_eq` say what the two number scanners answer on a
  string.
* `Prints` is a run over a whole format, and `output_of_stepN` says that the loop
  has its text.
* `stepN_text` is a run over plain text.
-/

namespace HyperBench.Printf

open Ascii CObject

/-! ## Rounds -/

section Rounds

variable {σ : Type} [Sink σ] {outside : Int → UInt8} {o : List UInt8}

/-- `n` rounds of the scanner. -/
def stepN (outside : Int → UInt8) (o : List UInt8) : Nat → Printer σ → Option (Printer σ)
  | 0, st => some st
  | n + 1, st => (step outside o st).bind (stepN outside o n)

theorem stepN_succ_of_step {st st' : Printer σ} (h : step outside o st = some st') (n : Nat) :
    stepN outside o (n + 1) st = stepN outside o n st' := by
  rw [stepN, h, Option.bind_some]

theorem stepN_one (st : Printer σ) : stepN outside o 1 st = step outside o st := by
  cases hstep : step outside o st with
  | none => rw [stepN, hstep, Option.bind_none]
  | some st' => rw [stepN_succ_of_step hstep, stepN]

theorem stepN_add {m n : Nat} {st st' : Printer σ} (h : stepN outside o m st = some st') :
    stepN outside o (m + n) st = stepN outside o n st' := by
  induction m generalizing st with
  | zero =>
    obtain rfl : st = st' := Option.some.inj h
    rw [Nat.zero_add]
  | succ m ih =>
    obtain ⟨mid, hmid, hrest⟩ := Option.bind_eq_some_iff.1 h
    rw [Nat.add_right_comm, stepN_succ_of_step hmid, ih hrest]

theorem step_of_atEnd {st : Printer σ} (h : atEnd o st = true) : step outside o st = none := by
  unfold atEnd at h
  unfold step
  split at h
  · rename_i hscan
    rw [of_decide_eq_true h, hscan]
    rfl
  · cases h

theorem atEnd_of_step {st st' : Printer σ} (h : step outside o st = some st') :
    atEnd o st = false := by
  cases hend : atEnd o st with
  | false => rfl
  | true =>
    rw [step_of_atEnd hend] at h
    cases h

theorem scanFormat_of_atEnd {st : Printer σ} (h : atEnd o st = true) (fuel : Nat) :
    scanFormat outside o (fuel + 1) st = some st := by
  rw [scanFormat, if_pos h]

theorem scanFormat_of_step {st st' : Printer σ} (h : step outside o st = some st') (fuel : Nat) :
    scanFormat outside o (fuel + 1) st = scanFormat outside o fuel st' := by
  rw [scanFormat, if_neg (by rw [atEnd_of_step h]; exact Bool.false_ne_true), h]
  rfl

/-- The loop behind `n` rounds. -/
theorem scanFormat_of_stepN {n : Nat} {st st' : Printer σ} (h : stepN outside o n st = some st')
    (fuel : Nat) : scanFormat outside o (n + fuel) st = scanFormat outside o fuel st' := by
  induction n generalizing st with
  | zero =>
    obtain rfl : st = st' := Option.some.inj h
    rw [Nat.zero_add]
  | succ n ih =>
    obtain ⟨mid, hmid, hrest⟩ := Option.bind_eq_some_iff.1 h
    rw [Nat.add_right_comm, scanFormat_of_step hmid, ih hrest]

/-- A run that has come to the end of the format has passed every state of
the scanner. -/
theorem stepN_of_atEnd {m n : Nat} {st mid last : Printer σ}
    (hmid : stepN outside o m st = some mid) (hlast : stepN outside o n st = some last)
    (hend : atEnd o last = true) : ∃ k, stepN outside o k mid = some last := by
  induction m generalizing n st with
  | zero =>
    obtain rfl : st = mid := Option.some.inj hmid
    exact ⟨n, hlast⟩
  | succ m ih =>
    obtain ⟨next, hnext, hrest⟩ := Option.bind_eq_some_iff.1 hmid
    cases n with
    | zero =>
      obtain rfl : st = last := Option.some.inj hlast
      rw [step_of_atEnd hend] at hnext
      cases hnext
    | succ n =>
      rw [stepN_succ_of_step hnext] at hlast
      exact ih hrest hlast

/-- The answer of the loop is reached by rounds. -/
theorem stepN_of_scanFormat {fuel : Nat} {st st' : Printer σ}
    (h : scanFormat outside o fuel st = some st') :
    ∃ n, stepN outside o n st = some st' ∧ atEnd o st' = true := by
  induction fuel generalizing st with
  | zero => cases h
  | succ fuel ih =>
    cases hend : atEnd o st with
    | true =>
      rw [scanFormat_of_atEnd hend] at h
      obtain rfl : st = st' := Option.some.inj h
      exact ⟨0, rfl, hend⟩
    | false =>
      rw [scanFormat, hend] at h
      obtain ⟨mid, hmid, hrest⟩ := Option.bind_eq_some_iff.1 h
      obtain ⟨n, hn, hend'⟩ := ih hrest
      exact ⟨n + 1, (stepN_succ_of_step hmid n).trans hn, hend'⟩

/-- The answer of the loop does not depend on how long it may take. -/
theorem scanFormat_unique {fuel fuel' : Nat} {st last last' : Printer σ}
    (h : scanFormat outside o fuel st = some last)
    (h' : scanFormat outside o fuel' st = some last') : last = last' := by
  obtain ⟨m, hrun, hend⟩ := stepN_of_scanFormat h
  obtain ⟨n, hrun', hend'⟩ := stepN_of_scanFormat h'
  obtain ⟨k, hk⟩ := stepN_of_atEnd hrun hrun' hend'
  cases k with
  | zero => exact Option.some.inj hk
  | succ k =>
    obtain ⟨next, hnext, _⟩ := Option.bind_eq_some_iff.1 hk
    rw [step_of_atEnd hend] at hnext
    cases hnext

end Rounds

/-! ## The same run into another stream -/

section Onto

variable {σ : Type} [Sink σ] {outside : Int → UInt8} {o : List UInt8}

/-- The state whose stream has got the text of `st` behind what is in `p`. -/
def Printer.onto (p : σ) (st : Printer Unlimited) : Printer σ :=
  ⟨put p st.stream.text, st.args, st.fmt, st.scan, st.directives⟩

@[simp] theorem Printer.onto_fmt (p : σ) (st : Printer Unlimited) : (st.onto p).fmt = st.fmt := rfl

@[simp] theorem Printer.onto_scan (p : σ) (st : Printer Unlimited) :
    (st.onto p).scan = st.scan := rfl

@[simp] theorem Printer.onto_args (p : σ) (st : Printer Unlimited) :
    (st.onto p).args = st.args := rfl

theorem Printer.onto_start (p : σ) (args : List Arg) :
    (Printer.start (⟨[]⟩ : Unlimited) args).onto p = Printer.start p args := rfl

/-- The end of a directive that gives `text` to the stream. -/
theorem Printer.onto_emit (p : σ) (st : Printer Unlimited) (taken : Option VaType)
    (text : List UInt8) (args : List Arg) :
    (st.emit taken (put st.stream text) args).onto p
      = (st.onto p).emit taken (put (st.onto p).stream text) args := by
  have hput : put p (put st.stream text).text = put (put p st.stream.text) text := by
    rw [put_unlimited st.stream.text text, put_append]
  unfold Printer.onto Printer.emit
  rw [hput]

theorem convert_onto (p : σ) (st : Printer Unlimited) (props : StrProps) (nlong : Int)
    (f : UInt8) :
    convert outside (st.onto p) props nlong f
      = (convert outside st props nlong f).map (Printer.onto p) := by
  unfold convert
  simp only [printInt_put, printUnsigned_put, printStr_put, ← put_singleton, Printer.onto_args]
  -- every conversion takes its argument, if any, and then gives one text to the stream
  split
  · rw [Option.map_some, Printer.onto_emit]
  split
  · cases vaWord .int st.args with
    | none => rfl
    | some a => exact congrArg some (Printer.onto_emit p st _ _ a.2).symm
  split
  · cases vaWord (signedType nlong) st.args with
    | none => rfl
    | some a => exact congrArg some (Printer.onto_emit p st _ _ a.2).symm
  split
  · cases vaWord (unsignedType nlong) st.args with
    | none => rfl
    | some a => exact congrArg some (Printer.onto_emit p st _ _ a.2).symm
  split
  · cases vaWord (unsignedType nlong) st.args with
    | none => rfl
    | some a => exact congrArg some (Printer.onto_emit p st _ _ a.2).symm
  split
  · cases vaWord .voidPtr st.args with
    | none => rfl
    | some a => exact congrArg some (Printer.onto_emit p st _ _ a.2).symm
  split
  · cases vaStr st.args with
    | none => rfl
    | some a => exact congrArg some (Printer.onto_emit p st _ _ a.2).symm
  · rw [Option.map_some, Printer.onto_emit]

theorem readWidth_onto (p : σ) (st : Printer Unlimited) (props : StrProps) (nlong : Int) :
    readWidth o (st.onto p) props nlong = (readWidth o st props nlong).map (Printer.onto p) := by
  unfold readWidth
  rw [Printer.onto_fmt]
  cases fmtnum o (st.fmt - 1) with
  | none => rfl
  | some a => rfl

theorem scanDirective_onto (p : σ) (st : Printer Unlimited) (props : StrProps) (nlong : Int)
    (f : UInt8) :
    scanDirective outside o (st.onto p) props nlong f
      = (scanDirective outside o st props nlong f).map (Printer.onto p) := by
  unfold scanDirective
  split
  · rfl
  split
  · rfl
  split
  · exact readWidth_onto p { st with fmt := st.fmt + 1 } _ nlong
  split
  · exact readWidth_onto p st props nlong
  split
  · rfl
  split
  · rfl
  · exact convert_onto p st props nlong f

theorem step_onto (p : σ) (st : Printer Unlimited) :
    step outside o (st.onto p) = (step outside o st).map (Printer.onto p) := by
  unfold step
  rw [Printer.onto_fmt, Printer.onto_scan]
  cases load o st.fmt with
  | none => rfl
  | some f =>
    simp only [Option.bind_eq_bind, Option.bind_some]
    cases st.scan with
    | text =>
      dsimp only
      split
      · rfl
      split
      · rfl
      · rw [Option.map_some]
        congr 1
        unfold Printer.onto
        rw [← put_singleton, ← put_singleton, put_unlimited st.stream.text, put_append]
    | directive props nlong =>
      exact scanDirective_onto p { st with fmt := st.fmt + 1 } props nlong f

theorem stepN_onto (p : σ) (n : Nat) (st : Printer Unlimited) :
    stepN outside o n (st.onto p) = (stepN outside o n st).map (Printer.onto p) := by
  induction n generalizing st with
  | zero => rfl
  | succ n ih =>
    rw [stepN, stepN, step_onto]
    cases step outside o st with
    | none => rfl
    | some st' => exact ih st'

/-- A run into a buffer without an end gives the run into every stream. -/
theorem scanFormat_onto (p : σ) (fuel : Nat) (st : Printer Unlimited) :
    scanFormat outside o fuel (st.onto p)
      = (scanFormat outside o fuel st).map (Printer.onto p) := by
  induction fuel generalizing st with
  | zero => rfl
  | succ fuel ih =>
    rw [scanFormat, scanFormat, step_onto, show atEnd o (st.onto p) = atEnd o st from rfl]
    split
    · rfl
    · cases step outside o st with
      | none => rfl
      | some st' => exact ih st'

theorem output_eq_some_iff {fuel : Nat} {fmt text : List UInt8} {args : List Arg} :
    output outside fuel fmt args = some text ↔
      ∃ st, scanFormat outside (terminated fmt) fuel (.start (⟨[]⟩ : Unlimited) args) = some st ∧
        st.stream.text = text := by
  unfold output
  simp only [Option.bind_eq_bind, Option.bind_eq_some_iff, Option.pure_def, Option.some.injEq]

theorem output_unique {fuel fuel' : Nat} {fmt text text' : List UInt8} {args : List Arg}
    (h : output outside fuel fmt args = some text)
    (h' : output outside fuel' fmt args = some text') : text = text' := by
  obtain ⟨st, hst, rfl⟩ := output_eq_some_iff.1 h
  obtain ⟨st', hst', rfl⟩ := output_eq_some_iff.1 h'
  rw [scanFormat_unique hst hst']

end Onto

/-! ## The text of a format -/

/-- The scanner makes `text` of the format, and takes all of the arguments. -/
def Prints (outside : Int → UInt8) (fmt : List UInt8) (args : List Arg) (text : List UInt8) :
    Prop :=
  ∃ n ds, stepN outside (terminated fmt) n (.start (⟨[]⟩ : Unlimited) args)
    = some ⟨⟨text⟩, [], fmt.length, .text, ds⟩

section Prints

variable {outside : Int → UInt8} {fmt text : List UInt8} {args : List Arg}

/-- The loop ends behind the rounds of a format. -/
theorem output_of_stepN {n fuel : Nat} {ds : List Directive}
    (hrun : stepN outside (terminated fmt) n (.start (⟨[]⟩ : Unlimited) args)
      = some ⟨⟨text⟩, [], fmt.length, .text, ds⟩) (hfuel : n < fuel) :
    output outside fuel fmt args = some text := by
  have hend : atEnd (terminated fmt)
      (⟨⟨text⟩, [], fmt.length, .text, ds⟩ : Printer Unlimited) = true := by
    show decide (load (terminated fmt) (fmt.length : Int) = some 0) = true
    rw [load_terminated (Nat.le_refl _), List.drop_length]
    rfl
  obtain ⟨k, rfl⟩ : ∃ k, fuel = n + (k + 1) := ⟨fuel - n - 1, by omega⟩
  have hscan := (scanFormat_of_stepN hrun (k + 1)).trans (scanFormat_of_atEnd hend k)
  exact output_eq_some_iff.2 ⟨_, hscan, rfl⟩

theorem Prints.exists_output (h : Prints outside fmt args text) :
    ∃ fuel, output outside fuel fmt args = some text := by
  obtain ⟨n, ds, hrun⟩ := h
  exact ⟨n + 1, output_of_stepN hrun (Nat.lt_succ_self n)⟩

end Prints

/-! ## Numbers of the format -/

/-- The characters of a text that `fmtnum` counts: an optional sign and
digits. -/
def numberLength (s : List UInt8) : Nat :=
  let sign := if s.headD 0 = chr '-' then 1 else 0
  sign + ((s.drop sign).takeWhile isDigit).length

/-- The value that `atol` reads off a text. -/
def atolText (s : List UInt8) : Int :=
  let s := s.dropWhile fun c => c = chr ' ' ∨ c = chr '\t'
  let c := s.headD 0
  let acc := ((if c = chr '-' ∨ c = chr '+' then s.tail else s).takeWhile isDigit).foldl
    (fun acc c => toInt64 (acc * 10 + (c.toNat - (chr '0').toNat : Int))) 0
  if c = chr '-' then toInt64 (-acc) else acc

theorem takeWhile_nonzero_isDigit (s : List UInt8) :
    (s.takeWhile fun c => c ≠ 0 ∧ isDigit c) = s.takeWhile isDigit := by
  congr 1
  funext c
  by_cases hc : c = 0
  · subst hc
    rfl
  · simp [hc]

theorem drop_length_takeWhile (p : UInt8 → Bool) (s : List UInt8) :
    s.drop (s.takeWhile p).length = s.dropWhile p := by
  induction s with
  | nil => rfl
  | cons c s ih =>
    by_cases hc : p c = true
    · rw [List.takeWhile_cons_of_pos hc, List.dropWhile_cons_of_pos hc, List.length_cons,
        List.drop_succ_cons, ih]
    · rw [List.takeWhile_cons_of_neg hc, List.dropWhile_cons_of_neg hc]
      rfl

/-- The offset behind a walk over a string. -/
theorem add_length_takeWhile_le (p : UInt8 → Bool) {s : List UInt8} {i : Nat} (h : i ≤ s.length) :
    i + ((s.drop i).takeWhile p).length ≤ s.length := by
  have hle := (List.takeWhile_prefix (l := s.drop i) p).length_le
  rw [List.length_drop] at hle
  omega

theorem atol_eq {s : List UInt8} {i : Nat} (h : i ≤ s.length) :
    atol (terminated s) i = some (atolText (s.drop i)) := by
  let blank : UInt8 → Bool := fun c => c = chr ' ' ∨ c = chr '\t'
  obtain ⟨j, hj⟩ : ∃ j, j = i + ((s.drop i).takeWhile blank).length := ⟨_, rfl⟩
  have hjle : j ≤ s.length := hj ▸ add_length_takeWhile_le blank h
  have hdrop : s.drop j = (s.drop i).dropWhile blank := by
    rw [hj, ← List.drop_drop, drop_length_takeWhile]
  have hblank : scanWhile (terminated s) blank (fun _ _ => ()) i () = some ((j : Int), ()) := by
    rw [scanWhile_terminated (fun _ _ => ()) (by decide) h, hj]
  unfold atol atolText
  rw [hblank]
  simp only [Option.bind_eq_bind, Option.bind_some]
  rw [load_terminated hjle, Option.bind_some, ← hdrop]
  -- the sign is one character of the string
  by_cases hsign : (s.drop j).headD 0 = chr '-' ∨ (s.drop j).headD 0 = chr '+'
  · have hlt : j + 1 ≤ s.length := by
      by_contra hge
      rw [List.drop_of_length_le (by omega)] at hsign
      exact absurd hsign (by decide)
    rw [if_pos hsign, if_pos hsign, show ((j : Int) + 1) = ((j + 1 : Nat) : Int) from rfl,
      scanWhile_terminated _ (by decide) hlt, takeWhile_nonzero_isDigit, List.tail_drop]
    rfl
  · rw [if_neg hsign, if_neg hsign, scanWhile_terminated _ (by decide) hjle,
      takeWhile_nonzero_isDigit]
    rfl

theorem toInt32_add (a b : Int) : toInt32 (toInt32 a + b) = toInt32 (a + b) := by
  unfold toInt32
  rw [Int.bmod_add_bmod]

/-- An `int` that counts characters. -/
theorem foldl_count (w : List UInt8) {a : Nat} {b : Int} (hb : b = toInt32 a) :
    w.foldl (fun len _ => toInt32 (len + 1)) b = toInt32 (a + w.length : Nat) := by
  induction w generalizing a b with
  | nil => rw [List.foldl_nil, List.length_nil, Nat.add_zero, hb]
  | cons c w ih =>
    have hnext : toInt32 (b + 1) = toInt32 ((a + 1 : Nat) : Int) := by
      rw [hb, toInt32_add, Nat.cast_add, Nat.cast_one]
    rw [List.foldl_cons, ih hnext, List.length_cons, Nat.add_assoc, Nat.add_comm 1]

theorem fmtnum_eq {s : List UInt8} {i : Nat} (h : i ≤ s.length) :
    fmtnum (terminated s) i
      = some (toInt32 (atolText (s.drop i)), i + toInt32 (numberLength (s.drop i))) := by
  have hzero : (0 : Int) = toInt32 (0 : Nat) := by decide
  have hone : (1 : Int) = toInt32 (1 : Nat) := by decide
  unfold fmtnum numberLength
  rw [load_terminated h]
  simp only [Option.bind_eq_bind, Option.bind_some]
  by_cases hsign : (s.drop i).headD 0 = chr '-'
  · have hlt : i + 1 ≤ s.length := by
      by_contra hge
      rw [List.drop_of_length_le (by omega)] at hsign
      exact absurd hsign (by decide)
    simp only [hsign, if_true]
    rw [← Nat.cast_succ, scanWhile_terminated _ (by decide) hlt, Option.bind_some, atol_eq h,
      Option.bind_some, foldl_count _ hone, List.drop_drop, Option.pure_def]
  · simp only [hsign, if_false]
    rw [scanWhile_terminated _ (by decide) h, Option.bind_some, atol_eq h, Option.bind_some,
      foldl_count _ hzero, List.drop_zero, Option.pure_def]

/-! ## Plain text -/

section Text

variable {σ : Type} [Sink σ] {outside : Int → UInt8}

/-- A text without directives. -/
theorem stepN_text {o text rest : List UInt8} {i : Nat} (hdrop : o.drop i = text ++ rest)
    (htext : ∀ c ∈ text, c ≠ 0 ∧ c ≠ chr '%') (p : σ) (args : List Arg) (ds : List Directive) :
    stepN outside o text.length ⟨p, args, i, .text, ds⟩
      = some ⟨put p text, args, (i + text.length : Nat), .text, ds⟩ := by
  induction text generalizing i p with
  | nil => rfl
  | cons c text ih =>
    have hc := htext c List.mem_cons_self
    have hstep : step outside o ⟨p, args, i, .text, ds⟩
        = some ⟨addchar p c, args, (i + 1 : Nat), .text, ds⟩ := by
      unfold step
      rw [load_of_drop hdrop]
      show (if c = 0 then none else if c = chr '%' then _ else some _) = _
      rw [if_neg hc.1, if_neg hc.2]
      rfl
    rw [List.length_cons, stepN_succ_of_step hstep,
      ih (drop_succ_of_drop hdrop) fun d hd => htext d (List.mem_cons_of_mem c hd),
      Nat.add_assoc, Nat.add_comm 1]
    rfl

theorem prints_text (outside : Int → UInt8) {text : List UInt8}
    (htext : ∀ c ∈ text, c ≠ 0 ∧ c ≠ chr '%') : Prints outside text [] text := by
  have hrun : stepN outside (terminated text) text.length ⟨⟨[]⟩, [], (0 : Nat), .text, []⟩
      = some ⟨put (⟨[]⟩ : Unlimited) text, [], (0 + text.length : Nat), .text, []⟩ :=
    stepN_text rfl htext (⟨[]⟩ : Unlimited) [] []
  rw [put_unlimited, List.nil_append, Nat.zero_add] at hrun
  exact ⟨text.length, [], hrun⟩

end Text

end HyperBench.Printf

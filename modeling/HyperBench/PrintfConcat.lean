import HyperBench.PrintfBound
import HyperBench.PrintfLayout

/-!
# Formats behind each other

The scanner of `vsnprintf` keeps no more between two characters than the
directive it is in, so formats can be put together: the text of `f` and `g`
behind each other is the text of `f` and then the text of `g`, each with its own
arguments.  This needs that no directive goes over the border.

* `closed` is the automaton that says so.  `fmtnum` calls `atol`, which skips
  blanks and a sign that `fmtnum` does not count, so a directive must not end in
  one of them either.
* `step_within` says that a round on `f` is a round on every format that `f`
  is part of, and `stepN_within` says so for runs.
* `Piece` is a closed format with its arguments and its text.
* `printf_concat` is the law for any number of pieces.
-/

namespace HyperBench.Printf

open Ascii CObject

/-! ## Closed formats -/

/-- The directives of a format end inside it.  The automaton is inside a
directive if `inside` is set. -/
def closed : Bool → List UInt8 → Bool
  | inside, [] => !inside
  | false, c :: s => closed (c = chr '%') s
  | true, c :: s => if isFlag c then closed true s else endsNumber c && c ≠ 0 && closed false s

theorem closed_flags {u : List UInt8} (hu : ∀ c ∈ u, isFlag c = true) (s : List UInt8) :
    closed true (u ++ s) = closed true s := by
  induction u with
  | nil => rfl
  | cons c u ih =>
    rw [List.cons_append, closed, if_pos (hu c List.mem_cons_self),
      ih fun d hd => hu d (List.mem_cons_of_mem c hd)]

theorem closed_conversion {c : UInt8} (hc : isFlag c = false) {s : List UInt8}
    (h : closed true (c :: s) = true) :
    endsNumber c = true ∧ c ≠ 0 ∧ closed false s = true := by
  rw [closed, if_neg (by rw [hc]; exact Bool.false_ne_true)] at h
  simpa [and_assoc] using h

/-- A closed rest of a directive has a conversion behind its flags. -/
theorem exists_conversion {t : List UInt8} (h : closed true t = true) :
    ∃ u v w, t = u ++ v :: w ∧ (∀ c ∈ u, isFlag c = true) ∧ isFlag v = false ∧
      closed true (v :: w) = true := by
  induction t with
  | nil => cases h
  | cons c t ih =>
    cases hc : isFlag c with
    | false => exact ⟨[], c, t, rfl, fun d hd => (List.not_mem_nil hd).elim, hc, h⟩
    | true =>
      rw [closed, if_pos hc] at h
      obtain ⟨u, v, w, rfl, hu, hv⟩ := ih h
      refine ⟨c :: u, v, w, rfl, fun d hd => ?_, hv⟩
      rcases List.mem_cons.1 hd with rfl | hd
      · exact hc
      · exact hu d hd

/-! ## Numbers in front of more text -/

/-- `atol` reads nothing behind the end of a number. -/
theorem atolText_append {rest : List UInt8} (h : endsNumber (rest.headD 0) = true)
    (s : List UInt8) : atolText (s ++ rest) = atolText s := by
  have hends : isDigit (rest.headD 0) = false ∧
      (rest.headD 0 ≠ chr ' ' ∧ rest.headD 0 ≠ chr '\t') ∧
      rest.headD 0 ≠ chr '-' ∧ rest.headD 0 ≠ chr '+' := by
    simpa [endsNumber, and_assoc] using h
  obtain ⟨hdigit, hblank, hminus, hplus⟩ := hends
  have hskip : (s ++ rest).dropWhile (fun c => c = chr ' ' ∨ c = chr '\t')
      = s.dropWhile (fun c => c = chr ' ' ∨ c = chr '\t') ++ rest :=
    dropWhile_append_of_head (head_of_headD (decide_eq_false (not_or.2 hblank))) s
  unfold atolText
  rw [hskip]
  cases s.dropWhile fun c => c = chr ' ' ∨ c = chr '\t' with
  | nil =>
    -- only blanks in front of the border: there are no digits on either side
    have hnone : rest.takeWhile isDigit = [] := takeWhile_of_head (head_of_headD hdigit)
    simp only [List.nil_append, hminus, hplus, or_self, if_false, hnone]
    rfl
  | cons c s =>
    simp only [List.cons_append, List.headD_cons, List.tail_cons]
    by_cases hsign : c = chr '-' ∨ c = chr '+'
    · simp only [hsign, if_true, takeWhile_append_of_head (head_of_headD hdigit)]
    · simp only [hsign, if_false, ← List.cons_append,
        takeWhile_append_of_head (head_of_headD hdigit)]

section Flag

variable {rest : List UInt8} (h : endsNumber (rest.headD 0) = true) (c : UInt8) (t : List UInt8)
include h

theorem flagProps_append (props : StrProps) :
    flagProps props c (t ++ rest) = flagProps props c t := by
  unfold flagProps
  rw [atolText_append h, ← List.cons_append, atolText_append h]

theorem advance_append : advance c (t ++ rest) = advance c t := by
  have hnumeric := (not_numeric_of_ends h).2
  unfold advance
  rw [numberLength_append hnumeric, ← List.cons_append, numberLength_append hnumeric]

/-- The pointer behind a flag. -/
theorem advance_append_eq (ht : t.length < 2 ^ 31 - 1) :
    advance c (t ++ rest) = flagLength c t := by
  have hle := flagLength_le c t
  have hcount : numberAt c t ≤ flagLength c t := by
    unfold numberAt flagLength
    split
    · exact Nat.le_succ _
    · split
      · exact Nat.le_refl _
      · exact Nat.zero_le _
  rw [advance_append h, advance_eq (by omega)]

end Flag

/-! ## A format inside another one -/

section Within

variable {σ : Type}

/-- The state of the scanner on a format that stands at the offset `k` of
another one, whose arguments `b` come behind the ones of the format. -/
def Printer.within (k : Nat) (b : List Arg) (ds : List Directive) (st : Printer σ) : Printer σ :=
  ⟨st.stream, st.args ++ b, k + st.fmt, st.scan, ds⟩

def Scan.inside : Scan → Bool
  | .text => false
  | .directive _ _ => true

/-- The scanner is inside `f`, and so is the end of its directive. -/
def Printer.Inside (f : List UInt8) (st : Printer σ) : Prop :=
  ∃ i : Nat, st.fmt = i ∧ i ≤ f.length ∧ closed st.scan.inside (f.drop i) = true

variable [Sink σ] (outside : Int → UInt8)

theorem vaWord_append {t : VaType} {args rest : List Arg} {w : Nat}
    (h : vaWord t args = some (w, rest)) (b : List Arg) :
    vaWord t (args ++ b) = some (w, rest ++ b) := by
  cases args with
  | nil => cases h
  | cons a args =>
    cases a with
    | word v =>
      cases h
      rfl
    | str s => cases h

theorem vaStr_append {args rest : List Arg} {s : List UInt8} (h : vaStr args = some (s, rest))
    (b : List Arg) : vaStr (args ++ b) = some (s, rest ++ b) := by
  cases args with
  | nil => cases h
  | cons a args =>
    cases a with
    | word v => cases h
    | str v =>
      cases h
      rfl

/-- A conversion does not see the arguments behind its own. -/
theorem convert_within {st st' : Printer σ} {props : StrProps} {nlong : Int} {f : UInt8}
    (h : convert outside st props nlong f = some st') (k : Nat) (b : List Arg)
    (ds : List Directive) :
    (st'.fmt = st.fmt ∧ st'.scan = .text) ∧
      ∃ ds', convert outside (st.within k b ds) props nlong f = some (st'.within k b ds') := by
  -- a conversion with a word for its argument
  have hword : ∀ (t : VaType) (print : Nat → σ),
      (vaWord t st.args).bind (fun a => some (st.emit (some t) (print a.1) a.2)) = some st' →
      (st'.fmt = st.fmt ∧ st'.scan = .text) ∧
        ∃ ds', (vaWord t (st.args ++ b)).bind
            (fun a => some ((st.within k b ds).emit (some t) (print a.1) a.2))
          = some (st'.within k b ds') := by
    intro t print hconv
    obtain ⟨⟨w, rest⟩, hva, hst⟩ := Option.bind_eq_some_iff.1 hconv
    cases hst
    refine ⟨⟨rfl, rfl⟩, ds ++ [⟨k + st.fmt - 1, some t⟩], ?_⟩
    rw [vaWord_append hva, Option.bind_some]
    rfl
  unfold convert at h ⊢
  by_cases hpercent : f = chr '%'
  · rw [if_pos hpercent] at h ⊢
    cases h
    exact ⟨⟨rfl, rfl⟩, ds ++ [⟨k + st.fmt - 1, none⟩], rfl⟩
  rw [if_neg hpercent] at h ⊢
  by_cases hc : f = chr 'c'
  · rw [if_pos hc] at h ⊢
    exact hword .int (fun w => addchar st.stream (UInt8.ofNat w)) h
  rw [if_neg hc] at h ⊢
  by_cases hd : f = chr 'd'
  · rw [if_pos hd] at h ⊢
    exact hword (signedType nlong)
      (fun w => printInt outside st.stream (Int.bmod w (2 ^ (signedType nlong).width)) 10 props) h
  rw [if_neg hd] at h ⊢
  by_cases hu : f = chr 'u'
  · rw [if_pos hu] at h ⊢
    exact hword (unsignedType nlong) (fun w => printUnsigned st.stream w 10 props) h
  rw [if_neg hu] at h ⊢
  by_cases hx : f = chr 'x'
  · rw [if_pos hx] at h ⊢
    exact hword (unsignedType nlong) (fun w => printUnsigned st.stream w 16 props) h
  rw [if_neg hx] at h ⊢
  by_cases hp : f = chr 'p'
  · rw [if_pos hp] at h ⊢
    exact hword .voidPtr (fun w => printUnsigned st.stream w 16 { props with alternate := true }) h
  rw [if_neg hp] at h ⊢
  by_cases hs : f = chr 's'
  · rw [if_pos hs] at h ⊢
    obtain ⟨⟨s, rest⟩, hva, hst⟩ := Option.bind_eq_some_iff.1 h
    cases hst
    refine ⟨⟨rfl, rfl⟩, ds ++ [⟨k + st.fmt - 1, some .charPtr⟩], ?_⟩
    show (vaStr (st.args ++ b)).bind _ = _
    rw [vaStr_append hva, Option.bind_some]
    rfl
  · rw [if_neg hs] at h ⊢
    cases h
    exact ⟨⟨rfl, rfl⟩, ds ++ [⟨k + st.fmt - 1, none⟩], rfl⟩

/-- What a round on a closed format does: it moves on inside the format, and
it is the same round where the format is part of another one. -/
structure RoundWithin (f : List UInt8) (st st' : Printer σ) (pre post : List UInt8) (b : List Arg)
    (ds : List Directive) : Prop where
  inside : st'.Inside f
  moves : st.fmt < st'.fmt
  step : ∃ ds', step outside (terminated (pre ++ (f ++ post))) (st.within pre.length b ds)
    = some (st'.within pre.length b ds')

section Round

variable {f : List UInt8} {i : Nat} {c : UInt8} {t : List UInt8} (pre post : List UInt8)
  (hdrop : f.drop i = c :: t) (p : σ) (args b : List Arg) (ds₀ ds : List Directive)
  {st' : Printer σ}
include hdrop

theorem drop_within : (pre ++ (f ++ post)).drop (pre.length + i) = c :: (t ++ post) := by
  have hlt := lt_length_of_drop hdrop
  rw [← List.drop_drop, List.drop_left, List.drop_append_of_le_length (by omega), hdrop,
    List.cons_append]

theorem step_within_text (hclosed : closed false (c :: t) = true)
    (h : step outside (terminated f) ⟨p, args, i, .text, ds₀⟩ = some st') :
    RoundWithin outside f ⟨p, args, i, .text, ds₀⟩ st' pre post b ds := by
  have hlt := lt_length_of_drop hdrop
  have hnext := drop_succ_of_drop hdrop
  have hbig := drop_within pre post hdrop
  by_cases hpercent : c = chr '%'
  · subst hpercent
    rw [step_percent outside hdrop] at h
    cases h
    refine ⟨⟨i + 1, rfl, hlt, ?_⟩, ?_, ds, step_percent outside hbig p (args ++ b) ds⟩
    · rw [hnext]
      exact hclosed
    · exact Int.lt_add_one_of_le (Int.le_refl _)
  · have hnul : c ≠ 0 := by
      rintro rfl
      have hend : atEnd (terminated f) (⟨p, args, i, .text, ds₀⟩ : Printer σ) = true := by
        show decide (load (terminated f) (i : Int) = some 0) = true
        rw [load_terminated (Nat.le_of_lt hlt), hdrop]
        rfl
      rw [step_of_atEnd hend] at h
      cases h
    rw [step_plain outside hdrop hnul hpercent] at h
    cases h
    refine ⟨⟨i + 1, rfl, hlt, ?_⟩, ?_, ds,
      step_plain outside hbig hnul hpercent p (args ++ b) ds⟩
    · rw [hnext]
      rwa [closed, decide_eq_false hpercent] at hclosed
    · exact Int.lt_add_one_of_le (Int.le_refl _)

variable (props : StrProps) (nlong : Int)

theorem step_within_conversion (hc : isFlag c = false) (hclosed : closed true (c :: t) = true)
    (h : step outside (terminated f) ⟨p, args, i, .directive props nlong, ds₀⟩ = some st') :
    RoundWithin outside f ⟨p, args, i, .directive props nlong, ds₀⟩ st' pre post b ds := by
  have hlt := lt_length_of_drop hdrop
  have hbig := drop_within pre post hdrop
  obtain ⟨-, hnul, hrest⟩ := closed_conversion hc hclosed
  rw [step_conversion outside (Nat.le_of_lt hlt) (by rw [hdrop]; rfl) hc hnul] at h
  obtain ⟨⟨hfmt, hscan⟩, ds', hconv⟩ := convert_within outside h pre.length b ds
  refine ⟨⟨i + 1, hfmt, hlt, ?_⟩, ?_, ds', ?_⟩
  · rw [hscan, drop_succ_of_drop hdrop]
    exact hrest
  · rw [hfmt]
    exact Int.lt_add_one_of_le (Int.le_refl _)
  · have hstep := step_conversion outside (s := pre ++ (f ++ post)) (i := pre.length + i)
      (Nat.le_of_lt (lt_length_of_drop hbig)) (by rw [hbig]; rfl) hc hnul p (args ++ b) props nlong
      ds
    refine hstep.trans (Eq.trans ?_ hconv)
    rw [Printer.within, Nat.cast_add, Int.add_assoc]

theorem step_within_flag (hf : f.length < 2 ^ 31) (hc : isFlag c = true)
    (hclosed : closed true (c :: t) = true)
    (h : step outside (terminated f) ⟨p, args, i, .directive props nlong, ds₀⟩ = some st') :
    RoundWithin outside f ⟨p, args, i, .directive props nlong, ds₀⟩ st' pre post b ds := by
  have hbig := drop_within pre post hdrop
  rw [closed, if_pos hc] at hclosed
  obtain ⟨u, v, w, rfl, hu, hv, hvw⟩ := exists_conversion hclosed
  obtain ⟨hends, -, -⟩ := closed_conversion hv hvw
  have hlen : i + (u.length + w.length + 2) = f.length := by
    have hcount := congrArg List.length hdrop
    simp only [List.length_drop, List.length_cons, List.length_append] at hcount
    omega
  have hlong := flagLength_le c u
  have hpos := flagLength_pos c u
  -- the number at the flag ends in front of the conversion
  have hadvance : ∀ rest, advance c (u ++ v :: rest) = flagLength c u := fun rest =>
    advance_append_eq (by exact hends) c u (by omega)
  have hprops : ∀ rest, flagProps props c (u ++ v :: rest) = flagProps props c u := fun rest =>
    flagProps_append (by exact hends) c u props
  rw [step_flag outside hdrop hc, hadvance, hprops] at h
  cases h
  have hbig' : (pre ++ (f ++ post)).drop (pre.length + i) = c :: (u ++ v :: (w ++ post)) := by
    rw [hbig, List.append_assoc, List.cons_append]
  refine ⟨⟨i + flagLength c u, rfl, by omega, ?_⟩, ?_, ds, ?_⟩
  · have hmore : f.drop (i + flagLength c u) = u.drop (flagLength c u - 1) ++ v :: w := by
      obtain ⟨k, hk⟩ : ∃ k, flagLength c u = k + 1 := Nat.exists_eq_add_one.2 hpos
      rw [← List.drop_drop, hdrop, hk, List.drop_succ_cons, Nat.add_sub_cancel,
        List.drop_append_of_le_length (by omega)]
    rw [hmore]
    exact (closed_flags (fun d hd => hu d (List.mem_of_mem_drop hd)) _).trans hvw
  · exact Int.lt_add_of_pos_right _ (Int.natCast_pos.2 hpos)
  · have hstep := step_flag outside hbig' hc p (args ++ b) props nlong ds
    rw [hadvance, hprops] at hstep
    refine hstep.trans ?_
    rw [Printer.within, Nat.cast_add, Int.add_assoc]

end Round

/-- One round on a closed format. -/
theorem step_within {f : List UInt8} (hf : f.length < 2 ^ 31) {st st' : Printer σ}
    (hin : st.Inside f) (h : step outside (terminated f) st = some st') (pre post : List UInt8)
    (b : List Arg) (ds : List Directive) : RoundWithin outside f st st' pre post b ds := by
  obtain ⟨p, args, fmt, scan, ds₀⟩ := st
  obtain ⟨i, hi, hle, hclosed⟩ := hin
  obtain rfl : fmt = i := hi
  cases hdrop : f.drop i with
  | nil =>
    rw [hdrop] at hclosed
    cases scan with
    | text =>
      have hend : atEnd (terminated f) (⟨p, args, i, .text, ds₀⟩ : Printer σ) = true := by
        show decide (load (terminated f) (i : Int) = some 0) = true
        rw [load_terminated hle, hdrop]
        rfl
      rw [step_of_atEnd hend] at h
      cases h
    | directive props nlong => cases hclosed
  | cons c t =>
    rw [hdrop] at hclosed
    cases scan with
    | text => exact step_within_text outside pre post hdrop p args b ds₀ ds hclosed h
    | directive props nlong =>
      cases hc : isFlag c with
      | false =>
        exact step_within_conversion outside pre post hdrop p args b ds₀ ds props nlong hc hclosed h
      | true =>
        exact step_within_flag outside pre post hdrop p args b ds₀ ds props nlong hf hc hclosed h

/-- A run on a closed format is a run where the format is part of another one.
It takes no more rounds than it passes characters. -/
theorem stepN_within {f : List UInt8} (hf : f.length < 2 ^ 31) {n : Nat} {st st' : Printer σ}
    (hin : st.Inside f) (h : stepN outside (terminated f) n st = some st') (pre post : List UInt8)
    (b : List Arg) (ds : List Directive) :
    st.fmt + n ≤ st'.fmt ∧
      ∃ ds', stepN outside (terminated (pre ++ (f ++ post))) n (st.within pre.length b ds)
        = some (st'.within pre.length b ds') := by
  induction n generalizing st ds with
  | zero =>
    obtain rfl : st = st' := Option.some.inj h
    exact ⟨Int.le_of_eq (Int.add_zero _), ds, rfl⟩
  | succ n ih =>
    obtain ⟨mid, hmid, hrest⟩ := Option.bind_eq_some_iff.1 h
    obtain ⟨hinside, hmoves, ds₁, hstep⟩ := step_within outside hf hin hmid pre post b ds
    obtain ⟨hlen, ds₂, hrun⟩ := ih hinside hrest ds₁
    refine ⟨by omega, ds₂, ?_⟩
    rw [stepN_succ_of_step hstep, hrun]

end Within

/-! ## Pieces -/

/-- A part of a format, with its own arguments and its text.  No directive is open
at its end or ends in a blank or a sign, and it is shorter than an `int` can
count. -/
structure Piece (outside : Int → UInt8) where
  fmt : List UInt8
  args : List Arg
  text : List UInt8
  closed : closed false fmt = true
  length_lt : fmt.length < 2 ^ 31
  prints : Prints outside fmt args text

section Pieces

variable {outside : Int → UInt8}

/-- The run over one piece of a format. -/
theorem stepN_piece (q : Piece outside) (before : List UInt8) (pre post : List UInt8)
    (b : List Arg) (ds : List Directive) :
    ∃ n ds', n ≤ q.fmt.length ∧
      stepN outside (terminated (pre ++ (q.fmt ++ post))) n
          ⟨(⟨before⟩ : Unlimited), q.args ++ b, pre.length, .text, ds⟩
        = some ⟨⟨before ++ q.text⟩, b, (pre.length + q.fmt.length : Nat), .text, ds'⟩ := by
  obtain ⟨n, ds₀, hrun⟩ := q.prints
  have hstart : (Printer.start (⟨before⟩ : Unlimited) q.args).Inside q.fmt :=
    ⟨0, rfl, Nat.zero_le _, q.closed⟩
  have honto : stepN outside (terminated q.fmt) n (.start (⟨before⟩ : Unlimited) q.args)
      = (stepN outside (terminated q.fmt) n (.start (⟨[]⟩ : Unlimited) q.args)).map
          (Printer.onto ⟨before⟩) :=
    stepN_onto (⟨before⟩ : Unlimited) n (.start ⟨[]⟩ q.args)
  rw [hrun, Option.map_some] at honto
  obtain ⟨hlen, ds', hwithin⟩ := stepN_within outside q.length_lt hstart honto pre post b ds
  refine ⟨n, ds', ?_, ?_⟩
  · have hcount : (0 : Int) + n ≤ q.fmt.length := hlen
    omega
  · refine hwithin.trans ?_
    rw [Printer.within, Printer.onto, put_unlimited]
    rfl

/-- The run over pieces behind each other. -/
theorem stepN_pieces (qs : List (Piece outside)) (before pre : List UInt8) (ds : List Directive) :
    ∃ n ds', n ≤ (qs.flatMap (·.fmt)).length ∧
      stepN outside (terminated (pre ++ qs.flatMap (·.fmt))) n
          ⟨(⟨before⟩ : Unlimited), qs.flatMap (·.args), pre.length, .text, ds⟩
        = some ⟨⟨before ++ qs.flatMap (·.text)⟩, [],
            (pre.length + (qs.flatMap (·.fmt)).length : Nat), .text, ds'⟩ := by
  induction qs generalizing before pre ds with
  | nil =>
    refine ⟨0, ds, Nat.zero_le _, ?_⟩
    rw [List.flatMap_nil, List.flatMap_nil, List.flatMap_nil, List.append_nil, List.append_nil]
    rfl
  | cons q qs ih =>
    simp only [List.flatMap_cons]
    obtain ⟨n₁, ds₁, hn₁, hrun₁⟩ := stepN_piece q before pre (qs.flatMap (·.fmt)) (qs.flatMap (·.args)) ds
    obtain ⟨n₂, ds₂, hn₂, hrun₂⟩ := ih (before ++ q.text) (pre ++ q.fmt) ds₁
    rw [List.length_append, List.append_assoc] at hrun₂
    refine ⟨n₁ + n₂, ds₂, ?_, ?_⟩
    · rw [List.length_append]
      exact Nat.add_le_add hn₁ hn₂
    · rw [stepN_add hrun₁, hrun₂, List.append_assoc, List.length_append, Nat.add_assoc]

/-- The text of pieces behind each other.  `printf` has rounds enough for it. -/
theorem output_pieces (qs : List (Piece outside)) :
    output outside ((qs.flatMap (·.fmt)).length + 2) (qs.flatMap (·.fmt)) (qs.flatMap (·.args))
      = some (qs.flatMap (·.text)) := by
  obtain ⟨n, ds, hn, hrun⟩ := stepN_pieces qs [] [] []
  rw [List.nil_append, List.nil_append, List.length_nil, Nat.zero_add] at hrun
  exact output_of_stepN hrun (by omega)

theorem printf_of_output {fmt text : List UInt8} {args : List Arg}
    (h : output outside (fmt.length + 2) fmt args = some text) :
    printf outside fmt args = some (cString (text.take 1999)) := by
  unfold printf
  rw [vsnprintf_of_output h, put_start_buffer (by decide) (by decide)]
  exact congrArg some (cString_append _ [])

/-- For all pieces: one call with their formats behind each other and their
arguments behind each other prints their texts behind each other, up to the end of
the buffer or the first NUL. -/
theorem printf_concat (qs : List (Piece outside)) :
    printf outside (qs.flatMap (·.fmt)) (qs.flatMap (·.args))
      = some (cString ((qs.flatMap (·.text)).take 1999)) :=
  printf_of_output (output_pieces qs)

/-- The call for pieces whose text fits into the buffer. -/
theorem printf_pieces (qs : List (Piece outside)) (hlen : (qs.flatMap (·.text)).length < 2000)
    (hnul : (0 : UInt8) ∉ qs.flatMap (·.text)) :
    printf outside (qs.flatMap (·.fmt)) (qs.flatMap (·.args)) = some (qs.flatMap (·.text)) := by
  rw [printf_of_output (output_pieces qs), List.take_of_length_le (by omega),
    cString_of_no_nul hnul]

end Pieces

end HyperBench.Printf

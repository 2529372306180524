import HyperBench.PrintfGrammar

/-!
# The scanner and its grammar

`scanner_follows_grammar_iff`: `vsnprintf` comes to the end of its format,
reads nothing outside of it, and takes the arguments that the grammar says,
if and only if no counter of a directive goes wrong.

The scanner cannot pass a number that is too long for the counter of
`fmtnum`.  A `Trap` is such a number.  The pointer that `fmtnum` leaves
behind is in front of the number or inside of it, far from its end.  From
there the scanner comes to the number again, takes a character in front of it
for a terminator, or leaves the format.  `Trapped.step` is one round of
that, and `not_followed` its consequence for the directive.
-/

namespace HyperBench.Printf

open Ascii CObject

/-! ## Boundaries of numbers -/

/-- No number that starts in front of `b` reaches over it. -/
def Boundary (s : List UInt8) (b : Nat) : Prop := ∀ q, q < b → q + numberLength (s.drop q) ≤ b

theorem digitsLength_eq_zero {s : List UInt8} (h : isDigit (s.headD 0) = false) :
    digitsLength s = 0 := by
  cases s with
  | nil => rfl
  | cons c s => exact digitsLength_cons_of_not h s

/-- A number ends in front of a character that is no digit. -/
theorem boundary_of_not_digit {s : List UInt8} {b : Nat} (h : isDigit ((s.drop b).headD 0) = false) :
    Boundary s b := by
  intro q hq
  by_contra hover
  cases hdrop : s.drop q with
  | nil =>
    rw [hdrop] at hover
    exact hover (Nat.le_of_lt hq)
  | cons c t =>
    cases hc : isNumeric c with
    | false =>
      rw [hdrop, numberLength_cons_of_not hc] at hover
      omega
    | true =>
      rw [hdrop, numberLength_cons_of_numeric hc] at hover
      have hb : s.drop b = t.drop (b - q - 1) := by
        rw [← drop_succ_of_drop hdrop, List.drop_drop]
        congr 1
        omega
      have hdigits := digitsLength_drop (s := t) (k := b - q - 1) (by omega)
      rw [← hb, digitsLength_eq_zero h] at hdigits
      omega

theorem boundary_succ {s : List UInt8} {b : Nat} {c : UInt8} {t : List UInt8}
    (hdrop : s.drop b = c :: t) (hc : isNumeric c = false) : Boundary s (b + 1) := by
  have hdigit : isDigit ((s.drop b).headD 0) = false := by
    rw [hdrop, List.headD_cons]
    simp only [isNumeric, decide_eq_false_iff_not, not_or] at hc
    exact Bool.eq_false_iff.2 hc.1
  intro q hq
  rcases Nat.lt_or_eq_of_le (Nat.le_of_lt_succ hq) with hlt | rfl
  · exact Nat.le_succ_of_le (boundary_of_not_digit hdigit q hlt)
  · rw [hdrop, numberLength_cons_of_not hc]
    omega

theorem not_digit_after_digits (s : List UInt8) :
    isDigit ((s.drop (digitsLength s)).headD 0) = false := by
  rw [digitsLength, drop_length_takeWhile]
  cases hrest : s.dropWhile isDigit with
  | nil => rfl
  | cons c rest =>
    have hhead := List.head?_dropWhile_not isDigit s
    rw [hrest] at hhead
    simpa using hhead

theorem not_digit_after_number (s : List UInt8) :
    isDigit ((s.drop (numberLength s)).headD 0) = false := by
  cases s with
  | nil => rfl
  | cons c s =>
    cases hc : isNumeric c with
    | false =>
      rw [numberLength_cons_of_not hc, List.drop_zero, List.headD_cons]
      simp only [isNumeric, decide_eq_false_iff_not, not_or] at hc
      exact Bool.eq_false_iff.2 hc.1
    | true =>
      rw [numberLength_cons_of_numeric hc, List.drop_succ_cons]
      exact not_digit_after_digits s

/-- The scanner stands at a boundary behind every flag. -/
theorem boundary_flag {s : List UInt8} {i : Nat} {c : UInt8} {t : List UInt8}
    (hdrop : s.drop i = c :: t) : Boundary s (i + flagLength c t) := by
  have htail := drop_succ_of_drop hdrop
  unfold flagLength
  split
  · refine boundary_of_not_digit ?_
    rw [Nat.add_comm (numberLength t) 1, ← Nat.add_assoc, ← List.drop_drop, htail]
    exact not_digit_after_number t
  · split
    · refine boundary_of_not_digit ?_
      rw [← List.drop_drop, hdrop]
      exact not_digit_after_number (c :: t)
    · rename_i hc
      exact boundary_succ hdrop (Bool.eq_false_iff.2 hc)

/-! ## A number that is too long -/

/-- At the flag at offset `b`, `fmtnum` is called at `start` and counts the
characters up to `stop` with a counter that wraps. -/
structure Trap (s : List UInt8) (b start stop : Nat) : Prop where
  boundary : Boundary s b
  flag : ∃ c t, s.drop b = c :: t ∧
    (c = chr '0' ∧ start = b + 1 ∨ c ≠ chr '0' ∧ isNumeric c = true ∧ start = b)
  stop_eq : stop = start + numberLength (s.drop start)
  long : 2 ^ 31 ≤ numberLength (s.drop start)

section Trap

variable {s : List UInt8} {b start stop : Nat}

theorem Trap.stop_le (trap : Trap s b start stop) : stop ≤ s.length := by
  have hle := numberLength_le (s.drop start)
  have hlong := trap.long
  rw [List.length_drop] at hle
  have hstop := trap.stop_eq
  omega

theorem Trap.start_le (trap : Trap s b start stop) : b ≤ start ∧ start ≤ b + 1 := by
  obtain ⟨c, t, _, hflag⟩ := trap.flag
  omega

/-- What is left of the number at a place inside of it. -/
theorem Trap.numberLength_eq (trap : Trap s b start stop) {r : Nat} (hr : start ≤ r)
    (hstop : r < stop) : numberLength (s.drop r) = stop - r := by
  have hstop' := trap.stop_eq
  rcases Nat.eq_or_lt_of_le hr with rfl | hlt
  · omega
  · have hdrop := numberLength_drop (s := s.drop start) (k := r - start) (by omega) (by omega)
    rw [List.drop_drop, Nat.add_sub_cancel' hr] at hdrop
    omega

/-- A call of `fmtnum` at a place inside of the number. -/
theorem Trap.jump (trap : Trap s b start stop) {r : Nat} (hr : start ≤ r)
    (hstop : r + 2 ^ 31 ≤ stop) :
    (r : Int) + toInt32 (numberLength (s.drop r)) + 2 ^ 32 ≤ stop := by
  rw [trap.numberLength_eq hr (by omega)]
  obtain ⟨k, hk, hwrap⟩ := toInt32_wraps (x := stop - r) (by omega)
  omega

/-- A flag in front of the number. -/
theorem Trap.advance_before (trap : Trap s b start stop) {q : Nat} {c : UInt8} {t : List UInt8}
    (hdrop : s.drop q = c :: t) (hq : q < b) :
    (q : Int) + advance c t ≤ b ∨ (q : Int) + advance c t + 2 ^ 32 ≤ stop := by
  have htail : s.drop (q + 1) = t := drop_succ_of_drop hdrop
  have hbound := trap.boundary q hq
  rw [hdrop] at hbound
  unfold advance
  split
  · -- a zero right in front of the number calls `fmtnum` at the number itself
    rename_i hzero
    rw [← htail]
    rcases Nat.lt_or_eq_of_le (Nat.succ_le_of_lt hq) with hlt | heq
    · have hbound' := trap.boundary (q + 1) hlt
      have hle := toInt32_le (numberLength (s.drop (q + 1)))
      omega
    · rw [numberLength_cons_of_numeric (by rw [hzero]; decide)] at hbound
      obtain ⟨d, u, hd, hflag⟩ := trap.flag
      have ht : t = d :: u := by rw [← htail, ← hd, ← heq]
      have hdigit : ¬ isDigit d = true := by
        intro hdig
        rw [ht, digitsLength_cons_of_digit hdig] at hbound
        omega
      have hstart : start = b := by
        rcases hflag with ⟨rfl, _⟩ | ⟨_, _, h⟩
        · exact absurd (by decide) hdigit
        · exact h
      have hlong := trap.long
      have hstop := trap.stop_eq
      have hjump := trap.jump (r := q + 1) (by omega) (by omega)
      omega
  · split
    · have hle := toInt32_le (numberLength (c :: t))
      omega
    · omega

/-- A flag of the number, or the one that leads to it. -/
theorem Trap.advance_inside (trap : Trap s b start stop) {q : Nat} {c : UInt8} {t : List UInt8}
    (hdrop : s.drop q = c :: t) (hq : q = b ∨ b < q ∧ q + 2 ^ 32 ≤ stop) :
    isFlag c = true ∧ (q : Int) + advance c t + 2 ^ 32 ≤ stop := by
  have htail : s.drop (q + 1) = t := drop_succ_of_drop hdrop
  have hflag_of : ∀ d, isNumeric d = true → isFlag d = true := by
    intro d hd
    simp only [isNumeric, decide_eq_true_eq] at hd
    simp only [isFlag, decide_eq_true_eq]
    rcases hd with hd | hd
    · exact Or.inr (Or.inr (Or.inl hd))
    · exact Or.inr (Or.inl hd)
  have hlong := trap.long
  have hstop := trap.stop_eq
  have hstart := trap.start_le
  rcases hq with rfl | ⟨hlt, hroom⟩
  · obtain ⟨d, u, hd, hflag⟩ := trap.flag
    obtain ⟨rfl, rfl⟩ : c = d ∧ t = u := List.cons.inj (hdrop.symm.trans hd)
    rcases hflag with ⟨rfl, hs⟩ | ⟨hzero, hnum, hs⟩
    · have hjump := trap.jump (r := q + 1) (by omega) (by omega)
      rw [htail] at hjump
      refine ⟨by decide, ?_⟩
      rw [advance, if_pos rfl]
      omega
    · have hjump := trap.jump (r := q) (by omega) (by omega)
      rw [hdrop] at hjump
      refine ⟨hflag_of c hnum, ?_⟩
      rw [advance, if_neg hzero, if_pos hnum]
      exact hjump
  · have hlen := trap.numberLength_eq (r := q) (by omega) (by omega)
    have hnum : isNumeric c = true := by
      by_contra hnot
      rw [hdrop, numberLength_cons_of_not (Bool.eq_false_iff.2 hnot)] at hlen
      omega
    refine ⟨hflag_of c hnum, ?_⟩
    unfold advance
    split
    · have hjump := trap.jump (r := q + 1) (by omega) (by omega)
      rw [htail] at hjump
      omega
    · have hjump := trap.jump (r := q) (by omega) (by omega)
      rw [hdrop] at hjump
      exact hjump

end Trap

/-! ## The scanner at such a number -/

section Trapped

variable {σ : Type} [Sink σ] (outside : Int → UInt8) {s : List UInt8} {b start stop : Nat}

/-- The scanner is inside a directive behind the directives `ds`, in front
of the number or far from its end. -/
structure Trapped (b stop : Nat) (ds : List Directive) (st : Printer σ) : Prop where
  scan : ∃ props nlong, st.scan = .directive props nlong
  directives : st.directives = ds
  fmt : st.fmt ≤ b ∨ st.fmt + 2 ^ 32 ≤ stop

/-- A round of a trapped scanner leaves it trapped, or takes a character in
front of the number for a terminator. -/
theorem Trapped.step (trap : Trap s b start stop) {ds : List Directive} {st st' : Printer σ}
    (h : Trapped b stop ds st) (hstep : step outside (terminated s) st = some st') :
    Trapped b stop ds st' ∨ ∃ e : Directive, st'.directives = ds ++ [e] ∧ e.last < b := by
  obtain ⟨props, nlong, hscan⟩ := h.scan
  obtain ⟨f, hload, _⟩ := Option.bind_eq_some_iff.1 hstep
  obtain ⟨q, hfmt, hq⟩ := load_terminated_inv hload
  obtain ⟨p, args, fmt, scan, ds'⟩ := st
  obtain rfl : ds' = ds := h.directives
  obtain rfl : fmt = (q : Int) := hfmt
  obtain rfl : scan = .directive props nlong := hscan
  have hpos : (q : Int) ≤ b ∨ (q : Int) + 2 ^ 32 ≤ stop := h.fmt
  have hstop := trap.stop_le
  have hb : b < s.length := by
    obtain ⟨c, t, hdrop, _⟩ := trap.flag
    exact lt_length_of_drop hdrop
  obtain ⟨c, t, hdrop⟩ : ∃ c t, s.drop q = c :: t :=
    List.exists_cons_of_ne_nil (by rw [ne_eq, List.drop_eq_nil_iff]; omega)
  by_cases hc : isFlag c = true
  · left
    have hflag := step_flag outside hdrop hc p args props nlong ds'
    obtain rfl := Option.some.inj (hstep.symm.trans hflag)
    refine ⟨⟨_, _, rfl⟩, rfl, ?_⟩
    by_cases hbefore : q < b
    · exact trap.advance_before hdrop hbefore
    · exact Or.inr (trap.advance_inside hdrop (by omega)).2
  · right
    have hbefore : q < b := by
      by_contra hnot
      exact hc (trap.advance_inside hdrop (by omega)).1
    obtain ⟨p', hterm⟩ := step_terminator outside hq (by rw [hdrop, List.headD_cons])
      (Bool.eq_false_iff.2 hc) p args props nlong ds'
    rw [hterm] at hstep
    obtain ⟨rest, _, rfl⟩ := Option.map_eq_some_iff.1 hstep
    exact ⟨_, rfl, Int.ofNat_lt.2 hbefore⟩

/-- Any number of rounds of a trapped scanner. -/
theorem Trapped.stepN (trap : Trap s b start stop) {ds : List Directive} {n : Nat}
    {st st' : Printer σ} (h : Trapped b stop ds st)
    (hrun : stepN outside (terminated s) n st = some st') :
    Trapped b stop ds st' ∨ ∃ e : Directive, ds ++ [e] <+: st'.directives ∧ e.last < b := by
  induction n generalizing st with
  | zero =>
    obtain rfl : st = st' := Option.some.inj hrun
    exact Or.inl h
  | succ n ih =>
    obtain ⟨mid, hmid, hrest⟩ := Option.bind_eq_some_iff.1 hrun
    rcases h.step outside trap hmid with htrapped | ⟨e, he, hlast⟩
    · exact ih htrapped hrest
    · exact Or.inr ⟨e, he ▸ stepN_directives outside hrest, hlast⟩

/-- A flag whose number is too long is a trap. -/
theorem trap_of_long {i : Nat} {c : UInt8} {t : List UInt8} (hdrop : s.drop i = c :: t)
    (hb : Boundary s i) (hlong : ¬ numberAt c t < 2 ^ 31) :
    ∃ start stop, Trap s i start stop := by
  have htail : s.drop (i + 1) = t := drop_succ_of_drop hdrop
  unfold numberAt at hlong
  split at hlong
  · rename_i hzero
    refine ⟨i + 1, _, hb, ⟨c, t, hdrop, Or.inl ⟨hzero, rfl⟩⟩, rfl, ?_⟩
    rw [htail]
    omega
  · rename_i hzero
    split at hlong
    · rename_i hnum
      refine ⟨i, _, hb, ⟨c, t, hdrop, Or.inr ⟨hzero, hnum, rfl⟩⟩, rfl, ?_⟩
      rw [hdrop]
      omega
    · omega

/-- The scanner never comes to the end of a directive with a number that is
too long. -/
theorem not_followed {n : Nat} {run rest : List UInt8} {i : Nat} (hn : run.length ≤ n)
    (hdrop : s.drop i = run ++ rest) (hrun : ∀ c ∈ run, isFlag c = true)
    (hrest : isNumeric (rest.headD 0) = false) (hb : Boundary s i)
    (hlong : ¬ ∀ k ∈ numbers n run, k < 2 ^ 31) {p : σ} {args : List Arg} {props : StrProps}
    {nlong : Int} {ds : List Directive} {m : Nat} {st : Printer σ}
    (hsteps : stepN outside (terminated s) m ⟨p, args, i, .directive props nlong, ds⟩ = some st)
    (hend : atEnd (terminated s) st = true) :
    ∃ e : Directive, ds ++ [e] <+: st.directives ∧ e.last < (i + run.length : Nat) := by
  induction n generalizing run i props nlong m with
  | zero => exact absurd (fun k hk => nomatch hk) hlong
  | succ n ih =>
    cases run with
    | nil => exact absurd (fun k hk => nomatch hk) hlong
    | cons c t =>
      have hcons : s.drop i = c :: (t ++ rest) := hdrop
      have hle := flagLength_le c t
      have hpos := flagLength_pos c t
      have hnumber : numberAt c (t ++ rest) = numberAt c t := by
        rw [numberAt, numberAt, numberLength_append hrest, ← List.cons_append,
          numberLength_append hrest]
      have hlength : flagLength c (t ++ rest) = flagLength c t := by
        rw [flagLength, flagLength, numberLength_append hrest, ← List.cons_append,
          numberLength_append hrest]
      by_cases hshort : numberAt c t < 2 ^ 31
      · -- the flag is passed, and the number that is too long comes later
        have hflag := hrun c List.mem_cons_self
        have hstep := step_flag outside hcons hflag p args props nlong ds
        rw [advance_eq (hnumber ▸ hshort), hlength, ← Nat.cast_add] at hstep
        obtain ⟨m', hsteps'⟩ := stepN_of_atEnd ((stepN_one _).trans hstep) hsteps hend
        have hdrop' : s.drop (i + flagLength c t) = (c :: t).drop (flagLength c t) ++ rest := by
          rw [← List.drop_drop, hdrop,
            List.drop_append_of_le_length (by rw [List.length_cons]; omega)]
        have hlater : ¬ ∀ k ∈ numbers n ((c :: t).drop (flagLength c t)), k < 2 ^ 31 := by
          intro hall
          refine hlong fun k hk => ?_
          rcases List.mem_cons.1 hk with rfl | hk
          · exact hshort
          · exact hall k hk
        have hb' : Boundary s (i + flagLength c t) := hlength ▸ boundary_flag hcons
        obtain ⟨e, he, hlast⟩ := ih (by rw [List.length_drop]; rw [List.length_cons] at *; omega)
          hdrop' (fun d hd => hrun d (List.mem_of_mem_drop hd)) hb' hlater hsteps'
        refine ⟨e, he, ?_⟩
        rw [List.length_drop, List.length_cons] at hlast
        rw [List.length_cons]
        omega
      · obtain ⟨start, stop, trap⟩ := trap_of_long hcons hb (by rw [hnumber]; exact hshort)
        have htrapped : Trapped i stop ds
            (⟨p, args, i, .directive props nlong, ds⟩ : Printer σ) :=
          ⟨⟨props, nlong, rfl⟩, rfl, Or.inl (Int.le_refl _)⟩
        rcases htrapped.stepN outside trap hsteps with h | ⟨e, he, hlast⟩
        · obtain ⟨props', nlong', hscan⟩ := h.scan
          unfold atEnd at hend
          rw [hscan] at hend
          cases hend
        · refine ⟨e, he, ?_⟩
          rw [List.length_cons]
          omega

end Trapped

/-! ## Exactly the formats with good counters -/

section Exact

variable {σ : Type} [Sink σ] (outside : Int → UInt8) {s : List UInt8}

/-- The first directive behind `ds` is known from a prefix. -/
theorem eq_of_append_isPrefix {ds rest all : List Directive} {d e : Directive}
    (h : ds ++ [e] <+: all) (hall : all = ds ++ d :: rest) : e = d := by
  rw [hall, List.prefix_append_right_inj] at h
  exact (List.cons_prefix_cons.1 h).1

/-- A scanner that came to the end with a directive of the grammar had no
number in it that was too long. -/
theorem numbers_of_stepN {i : Nat} {t : List UInt8} (hdrop : s.drop i = chr '%' :: t) {p : σ}
    {args : List Arg} {ds rest : List Directive} {m : Nat} {st : Printer σ}
    (hsteps : stepN outside (terminated s) m ⟨p, args, i, .text, ds⟩ = some st)
    (hend : atEnd (terminated s) st = true)
    (hds : st.directives = ds ++ (itemAt i t).directive :: rest) :
    ∀ k ∈ numbers (itemAt i t).flags.length (itemAt i t).flags, k < 2 ^ 31 := by
  by_contra hlong
  have hstart := (stepN_one _).trans (step_percent outside hdrop p args ds)
  obtain ⟨m', hsteps'⟩ := stepN_of_atEnd hstart hsteps hend
  have hflags : s.drop (i + 1) = (itemAt i t).flags ++ t.dropWhile isFlag := by
    rw [drop_succ_of_drop hdrop, itemAt, List.takeWhile_append_dropWhile]
  obtain ⟨e, he, hlast⟩ := not_followed outside (Nat.le_refl _) hflags
    (fun c hc => List.mem_takeWhile_imp hc) (isNumeric_of_isFlag (isFlag_terminator i t))
    (boundary_succ hdrop (by decide)) hlong hsteps' hend
  rw [eq_of_append_isPrefix he hds] at hlast
  exact absurd hlast (Int.lt_irrefl _)

/-- A scanner that came to the end with the directives of the grammar had
good counters. -/
theorem countable_of_stepN {i : Nat} (hnul : (0 : UInt8) ∉ s) {p : σ} {args : List Arg}
    {ds : List Directive} {m : Nat} {st : Printer σ}
    (hsteps : stepN outside (terminated s) m ⟨p, args, i, .text, ds⟩ = some st)
    (hend : atEnd (terminated s) st = true)
    (hds : st.directives = ds ++ (grammar none i (s.drop i)).map Item.directive) :
    ∀ d ∈ grammar none i (s.drop i), d.Countable := by
  induction hk : s.length - i using Nat.strong_induction_on generalizing i p args ds m with
  | _ k ih =>
    subst hk
    cases hdrop : s.drop i with
    | nil => exact fun d hd => nomatch hd
    | cons c t =>
      have hlt := lt_length_of_drop hdrop
      by_cases hc : c = chr '%'
      · subst hc
        obtain ⟨_, hgrammar⟩ := grammar_next hdrop hnul
        have hnext := lt_next (i := i) (t := t)
        rw [hgrammar, List.map_cons] at hds
        have hnumbers := numbers_of_stepN outside hdrop hsteps hend hds
        -- the scanner passes the flags and takes the terminator
        obtain ⟨m₁, props, hflags⟩ := stepN_item outside hdrop hnumbers p args ds
        obtain ⟨m₂, hsteps'⟩ := stepN_of_atEnd hflags hsteps hend
        obtain ⟨p', hterm⟩ := step_item outside hdrop p args props (toInt32 (itemAt i t).longs) ds
        cases m₂ with
        | zero =>
          obtain rfl := Option.some.inj hsteps'
          cases hend
        | succ m₂ =>
          obtain ⟨mid, hmid, hrest⟩ := Option.bind_eq_some_iff.1 hsteps'
          rw [hterm] at hmid
          obtain ⟨args', _, rfl⟩ := Option.map_eq_some_iff.1 hmid
          have hsame := eq_of_append_isPrefix (stepN_directives outside hrest) hds
          have htaken : takes (itemAt i t).terminator (toInt32 (itemAt i t).longs)
              = takes (itemAt i t).terminator (itemAt i t).longs := congrArg Directive.taken hsame
          have hitem : (itemAt i t).Countable := ⟨hnumbers, takes_toInt32_iff.1 htaken⟩
          rw [hsame] at hrest
          have hlater := ih _ (by omega) hrest
            (by rw [hds, List.append_assoc, List.singleton_append]) rfl
          rw [← hdrop, hgrammar]
          intro d hd
          rcases List.mem_cons.1 hd with rfl | hd
          · exact hitem
          · exact hlater d hd
      · have hcn : c ≠ 0 := by
          rintro rfl
          exact hnul (List.mem_of_mem_drop (hdrop ▸ List.mem_cons_self))
        have htail : s.drop (i + 1) = t := drop_succ_of_drop hdrop
        have hstart := (stepN_one _).trans (step_plain outside hdrop hcn hc p args ds)
        obtain ⟨m', hsteps'⟩ := stepN_of_atEnd hstart hsteps hend
        rw [hdrop, grammar_plain hc, ← htail] at hds
        rw [grammar_plain hc, ← htail]
        exact ih _ (by omega) hsteps' hds rfl

end Exact

/-- The scanner follows the grammar: it comes to the end of the format inside
the format and its NUL, records the directives of the grammar with the types
of their arguments, and leaves the arguments behind those. -/
def Follows (outside : Int → UInt8) (size : Int) (fmt : List UInt8) (args rest : List Arg) : Prop :=
  ∃ fuel st, scanFormat outside (terminated fmt) fuel (.start (PStream.start size) args) = some st ∧
    st.directives = (grammar none 0 fmt).map Item.directive ∧ st.args = rest

theorem follows_of_countable {outside : Int → UInt8} {size : Int} {fmt : List UInt8}
    (hnul : (0 : UInt8) ∉ fmt) {args rest : List Arg}
    (hargs : takeArgs (grammar none 0 fmt) args = some rest)
    (hcount : ∀ d ∈ grammar none 0 fmt, d.Countable) : Follows outside size fmt args rest := by
  obtain ⟨m, st, hrun, hend, hds, hst⟩ := stepN_grammar outside (s := fmt) (Nat.zero_le _) hnul hcount
    (PStream.start size) args rest [] hargs
  refine ⟨m + 1, st, ?_, hds, hst⟩
  exact (scanFormat_of_stepN hrun 1).trans (scanFormat_of_atEnd hend 0)

theorem countable_of_follows {outside : Int → UInt8} {size : Int} {fmt : List UInt8}
    (hnul : (0 : UInt8) ∉ fmt) {args rest : List Arg} (h : Follows outside size fmt args rest) :
    ∀ d ∈ grammar none 0 fmt, d.Countable := by
  obtain ⟨fuel, st, hscan, hds, _⟩ := h
  obtain ⟨m, hrun, hend⟩ := stepN_of_scanFormat hscan
  exact countable_of_stepN outside (i := 0) hnul hrun hend hds

/-- For every size, every format without a NUL and every list of arguments
that matches its grammar: the scanner follows the grammar if and only if its
counters are good for every directive. -/
theorem scanner_follows_grammar_iff (outside : Int → UInt8) (size : Int) (fmt : List UInt8)
    (hnul : (0 : UInt8) ∉ fmt) (args rest : List Arg)
    (hargs : takeArgs (grammar none 0 fmt) args = some rest) :
    Follows outside size fmt args rest ↔ ∀ d ∈ grammar none 0 fmt, d.Countable :=
  ⟨countable_of_follows hnul, follows_of_countable hnul hargs⟩

/-- A format that ends inside a directive. -/
theorem scanner_follows_grammar_cut :
    Follows (fun _ => 0) 80 (ascii "%-5s|%#12l") [.str (ascii "ab")] [] := by
  have hgrammar : grammar none 0 (ascii "%-5s|%#12l")
      = [⟨ascii "-5", chr 's', 3⟩, ⟨ascii "#12l", 0, 10⟩] := by decide
  refine (scanner_follows_grammar_iff (fun _ => 0) 80 (ascii "%-5s|%#12l") (by decide)
    [.str (ascii "ab")] [] (by decide)).2 ?_
  rw [hgrammar]
  intro d hd
  rcases List.mem_cons.1 hd with rfl | hd
  · exact ⟨by decide, by decide⟩
  · rw [List.mem_singleton.1 hd]
    exact ⟨by decide, by decide⟩

/-! ## Too many length modifiers -/

/-- `%ll…ld` with `n` length modifiers. -/
def manyLongs (n : Nat) : List UInt8 := chr '%' :: (List.replicate n (chr 'l') ++ [chr 'd'])

/-- The directive of such a format. -/
def manyLongsItem (n : Nat) : Item := ⟨List.replicate n (chr 'l'), chr 'd', n + 1⟩

theorem itemAt_manyLongs (n : Nat) :
    itemAt 0 (List.replicate n (chr 'l') ++ [chr 'd']) = manyLongsItem n := by
  have hflags : ∀ c ∈ List.replicate n (chr 'l'), isFlag c = true := by
    intro c hc
    rw [List.eq_of_mem_replicate hc]
    decide
  unfold itemAt manyLongsItem
  rw [List.takeWhile_append_of_pos hflags, List.dropWhile_append_of_pos hflags,
    List.takeWhile_cons_of_neg (by decide), List.dropWhile_cons_of_neg (by decide),
    List.append_nil, List.length_replicate, Nat.zero_add, Nat.add_comm 1 n]
  rfl

theorem grammar_manyLongs (n : Nat) : grammar none 0 (manyLongs n) = [manyLongsItem n] := by
  have htail : ((List.replicate n (chr 'l') ++ [chr 'd']).dropWhile isFlag).tail = [] := by
    rw [List.dropWhile_append_of_pos, List.dropWhile_cons_of_neg (by decide), List.tail_cons]
    intro c hc
    rw [List.eq_of_mem_replicate hc]
    decide
  rw [manyLongs, grammar_percent, htail, itemAt_manyLongs, grammar]

theorem longs_manyLongsItem (n : Nat) : (manyLongsItem n).longs = n := by
  have hfold : ∀ m, (List.replicate n (chr 'l')).foldl countLong m = m + n := by
    induction n with
    | zero => exact fun m => rfl
    | succ n ih =>
      intro m
      rw [List.replicate_succ, List.foldl_cons, ih, countLong, if_pos rfl]
      omega
  exact (hfold 0).trans (Nat.zero_add n)

theorem nul_not_mem_manyLongs (n : Nat) : (0 : UInt8) ∉ manyLongs n := by
  unfold manyLongs
  rw [List.mem_cons, List.mem_append, List.mem_singleton]
  rintro (h | h | h)
  · exact absurd h (by decide)
  · exact absurd (List.eq_of_mem_replicate h) (by decide)
  · exact absurd h (by decide)

theorem numbers_manyLongs (m n : Nat) : ∀ k ∈ numbers m (List.replicate n (chr 'l')), k < 2 ^ 31 := by
  induction m generalizing n with
  | zero => exact fun k hk => nomatch hk
  | succ m ih =>
    cases n with
    | zero => exact fun k hk => nomatch hk
    | succ n =>
      intro k hk
      rw [List.replicate_succ] at hk
      rcases List.mem_cons.1 hk with rfl | hk
      · show 0 < 2 ^ 31
        omega
      · exact ih n k hk

/-- The scanner takes the type that its wrapped counter says. -/
theorem scanFormat_manyLongs (outside : Int → UInt8) (size : Int) (n w : Nat) :
    ∃ fuel st, scanFormat outside (terminated (manyLongs n)) fuel
        (.start (PStream.start size) [.word w]) = some st ∧
      st.directives = [⟨(n + 1 : Nat), some (signedType (toInt32 n))⟩] := by
  have hdrop : (manyLongs n).drop 0 = chr '%' :: (List.replicate n (chr 'l') ++ [chr 'd']) := rfl
  have hitem := itemAt_manyLongs n
  obtain ⟨m, props, hflags⟩ := stepN_item outside hdrop
    (by rw [hitem]; exact numbers_manyLongs _ n) (PStream.start size) [.word w] []
  obtain ⟨p', hterm⟩ := step_item outside hdrop (PStream.start size) [.word w] props
    (toInt32 (itemAt 0 (List.replicate n (chr 'l') ++ [chr 'd'])).longs) []
  have htake : takeArg (takes (manyLongsItem n).terminator (toInt32 n)) [.word w] = some [] := by
    show takeArg (some (signedType (toInt32 n))) [.word w] = some []
    rw [takeArg_word (signedType_ne_charPtr _)]
    rfl
  rw [hitem, longs_manyLongsItem] at hflags hterm
  rw [htake, Option.map_some] at hterm
  have hlength : (manyLongs n).length = n + 2 := by
    rw [manyLongs, List.length_cons, List.length_append, List.length_replicate,
      List.length_singleton]
  have hnext : (manyLongsItem n).next = (manyLongs n).length := by
    rw [hlength]
    rfl
  have hrun := (stepN_add hflags).trans ((stepN_one _).trans hterm)
  refine ⟨m + 1 + 1, _, (scanFormat_of_stepN hrun 1).trans (scanFormat_of_atEnd ?_ 0), rfl⟩
  show decide (load (terminated (manyLongs n)) ((manyLongsItem n).next : Int) = some 0) = true
  rw [hnext, load_terminated (Nat.le_refl _), List.drop_length]
  rfl

/-- Behind `2 ^ 32` length modifiers the counter is at 0 again.  The grammar
asks for a `long long`, and the scanner takes an `int`. -/
theorem scanner_miscounts_longs :
    takeArgs (grammar none 0 (manyLongs (2 ^ 32))) [.word 0] = some [] ∧
      (0 : UInt8) ∉ manyLongs (2 ^ 32) ∧
      (grammar none 0 (manyLongs (2 ^ 32))).map Item.taken = [some .longLong] ∧
      (∃ fuel st, scanFormat (fun _ => 0) (terminated (manyLongs (2 ^ 32))) fuel
          (.start (PStream.start 80) [.word 0]) = some st ∧
        st.directives.map Directive.taken = [some .int]) ∧
      ¬ Follows (fun _ => 0) 80 (manyLongs (2 ^ 32)) [.word 0] [] := by
  have htaken : (manyLongsItem (2 ^ 32)).taken = some .longLong := by
    show takes (chr 'd') ((manyLongsItem (2 ^ 32)).longs : Int) = _
    rw [longs_manyLongsItem]
    decide
  have hint : signedType (toInt32 ((2 ^ 32 : Nat) : Int)) = .int := by decide
  refine ⟨?_, nul_not_mem_manyLongs _, ?_, ?_, fun h => ?_⟩
  · rw [grammar_manyLongs, takeArgs, List.foldlM_cons, htaken]
    rfl
  · rw [grammar_manyLongs, List.map_cons, htaken, List.map_nil]
  · obtain ⟨fuel, st, hscan, hds⟩ := scanFormat_manyLongs (fun _ => 0) 80 (2 ^ 32) 0
    refine ⟨fuel, st, hscan, ?_⟩
    rw [hds, List.map_cons, List.map_nil, hint]
  · have hcount := countable_of_follows (nul_not_mem_manyLongs _) h (manyLongsItem (2 ^ 32))
      (by rw [grammar_manyLongs]; exact List.mem_cons_self)
    have hlongs := hcount.longs (Or.inl rfl)
    rw [longs_manyLongsItem] at hlongs
    omega

end HyperBench.Printf

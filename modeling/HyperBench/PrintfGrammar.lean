import HyperBench.PrintfFlags

/-!
# The grammar of a format

`grammar` reads a format as its grammar says: a directive is a `%`, the
maximal run of flags, and one terminator.  It is written without the code: it
knows no numbers, and it counts length modifiers without a bound.

The scanner of `vsnprintf` counts the characters of a number and the length
modifiers of a directive in an `int`.

* `Item.Countable` says that these counters do not go wrong on a directive.
* `takes_toInt32_iff` says when a counter that has wrapped around still gives
  the type of the grammar.
* `stepN_item` and `step_item` run over one directive, and `stepN_grammar`
  runs over a whole format of countable ones.
-/

namespace HyperBench.Printf

open Ascii CObject

/-! ## The grammar -/

/-- A directive: its flags, its terminator, and the offset of that. -/
structure Item where
  flags : List UInt8
  terminator : UInt8
  last : Nat
  deriving DecidableEq, Repr

/-- The directives of the text `s` that starts at offset `i`.  The first
argument holds the flags read so far when `s` starts inside a directive.  A
directive that the text does not end has the NUL as its terminator. -/
def grammar : Option (List UInt8) → Nat → List UInt8 → List Item
  | none, _, [] => []
  | some flags, i, [] => [⟨flags, 0, i⟩]
  | none, i, c :: s => grammar (if c = chr '%' then some [] else none) (i + 1) s
  | some flags, i, c :: s =>
    if isFlag c then grammar (some (flags ++ [c])) (i + 1) s
    else ⟨flags, c, i⟩ :: grammar none (i + 1) s

/-- The count of length modifiers behind the flag `c`. -/
def countLong (n : Nat) (c : UInt8) : Nat :=
  if c = chr 'l' then n + 1 else if c = chr 't' ∨ c = chr 'z' then 1 else n

/-- The length modifiers of a directive, read from left to right. -/
def Item.longs (d : Item) : Nat := d.flags.foldl countLong 0

/-- The type of the argument of a directive. -/
def Item.taken (d : Item) : Option VaType := takes d.terminator d.longs

/-- What the scanner should record of a directive. -/
def Item.directive (d : Item) : Directive := ⟨d.last, d.taken⟩

/-- The arguments that are left behind a list of directives. -/
def takeArgs (ds : List Item) (args : List Arg) : Option (List Arg) :=
  ds.foldlM (fun args d => takeArg d.taken args) args

/-- The counters of `vsnprintf` are good for the directive: an `int` holds
the length of every number, and the one with the length modifiers does not
come to 0 or 1 again in front of `d`, `u` and `x`. -/
structure Item.Countable (d : Item) : Prop where
  numbers : ∀ k ∈ numbers d.flags.length d.flags, k < 2 ^ 31
  longs : d.terminator = chr 'd' ∨ d.terminator = chr 'u' ∨ d.terminator = chr 'x' →
    d.longs < 2 ^ 32 ∨ 2 ≤ d.longs % 2 ^ 32

/-- The directive whose `%` is at offset `i`, in front of `t`. -/
def itemAt (i : Nat) (t : List UInt8) : Item :=
  ⟨t.takeWhile isFlag, (t.dropWhile isFlag).headD 0, i + 1 + (t.takeWhile isFlag).length⟩

theorem grammar_some (flags : List UInt8) (i : Nat) (s : List UInt8) :
    grammar (some flags) i s
      = ⟨flags ++ s.takeWhile isFlag, (s.dropWhile isFlag).headD 0,
          i + (s.takeWhile isFlag).length⟩
        :: grammar none (i + (s.takeWhile isFlag).length + 1) (s.dropWhile isFlag).tail := by
  induction s generalizing flags i with
  | nil =>
    rw [List.takeWhile_nil, List.append_nil]
    rfl
  | cons c s ih =>
    cases hc : isFlag c with
    | false =>
      have hnot : ¬ isFlag c = true := by rw [hc]; exact Bool.false_ne_true
      rw [grammar, if_neg hnot, List.takeWhile_cons_of_neg hnot, List.dropWhile_cons_of_neg hnot,
        List.append_nil]
      rfl
    | true =>
      rw [grammar, if_pos hc, ih, List.takeWhile_cons_of_pos hc, List.dropWhile_cons_of_pos hc,
        List.append_assoc, List.singleton_append, List.length_cons]
      simp only [Nat.add_assoc, Nat.add_comm 1]

theorem grammar_percent (i : Nat) (t : List UInt8) :
    grammar none i (chr '%' :: t)
      = itemAt i t :: grammar none ((itemAt i t).last + 1) (t.dropWhile isFlag).tail := by
  rw [grammar, if_pos rfl, grammar_some, List.nil_append]
  rfl

theorem grammar_plain {c : UInt8} (hc : c ≠ chr '%') (i : Nat) (t : List UInt8) :
    grammar none i (c :: t) = grammar none (i + 1) t := by
  rw [grammar, if_neg hc]

/-! ## Counters -/

theorem foldl_bump (flags : List UInt8) (n : Nat) :
    flags.foldl bump (toInt32 n) = toInt32 (flags.foldl countLong n : Nat) := by
  induction flags generalizing n with
  | nil => rw [List.foldl_nil, List.foldl_nil]
  | cons c flags ih =>
    have hbump : bump (toInt32 n) c = toInt32 (countLong n c : Nat) := by
      unfold bump countLong
      split
      · rw [toInt32_add, Nat.cast_add, Nat.cast_one]
      · split
        · decide
        · rfl
    rw [List.foldl_cons, hbump, ih, List.foldl_cons]

/-- A counter that has wrapped is behind by a multiple of its range. -/
theorem toInt32_wraps {x : Nat} (h : 2 ^ 31 ≤ x) :
    ∃ k : Int, 1 ≤ k ∧ toInt32 x = x - 2 ^ 32 * k := by
  have hsplit : (2 ^ 32 : Int) * Int.bdiv x (2 ^ 32) + toInt32 x = x :=
    Int.bdiv_add_bmod (x : Int) (2 ^ 32)
  have hlt : toInt32 x < 2 ^ 31 := Int.bmod_lt (m := 2 ^ 32) (by decide)
  exact ⟨Int.bdiv x (2 ^ 32), by omega, by omega⟩

theorem toInt32_le (x : Nat) : toInt32 x ≤ x := by
  rcases Nat.lt_or_ge x (2 ^ 31) with h | h
  · rw [toInt32_of_mem (by omega) (by omega)]
  · obtain ⟨k, hk, hx⟩ := toInt32_wraps h
    omega

/-- When a wrapped count is 0 or 1. -/
theorem toInt32_eq_iff {n : Nat} {a : Int} (ha : a = 0 ∨ a = 1) :
    toInt32 n = a ↔ (n % 2 ^ 32 : Nat) = a := by
  unfold toInt32
  rw [Int.bmod_def]
  split <;> omega

/-- The type of a count of length modifiers that may have wrapped. -/
theorem numberType_toInt32_iff {α : Type} {x y z : α} (hxy : x ≠ y) (hxz : x ≠ z) (hyz : y ≠ z)
    {n : Nat} :
    (if toInt32 n = 0 then x else if toInt32 n = 1 then y else z)
        = (if (n : Int) = 0 then x else if (n : Int) = 1 then y else z) ↔
      n < 2 ^ 32 ∨ 2 ≤ n % 2 ^ 32 := by
  have h0 := toInt32_eq_iff (n := n) (Or.inl rfl)
  have h1 := toInt32_eq_iff (n := n) (Or.inr rfl)
  simp only [h0, h1]
  split_ifs <;> simp [*, Ne.symm] <;> omega

theorem signedType_toInt32_iff {n : Nat} :
    signedType (toInt32 n) = signedType n ↔ n < 2 ^ 32 ∨ 2 ≤ n % 2 ^ 32 := by
  unfold signedType
  exact numberType_toInt32_iff (by decide) (by decide) (by decide)

theorem unsignedType_toInt32_iff {n : Nat} :
    unsignedType (toInt32 n) = unsignedType n ↔ n < 2 ^ 32 ∨ 2 ≤ n % 2 ^ 32 := by
  unfold unsignedType
  exact numberType_toInt32_iff (by decide) (by decide) (by decide)

/-- The type that is taken for a count of length modifiers that may have
wrapped. -/
theorem takes_toInt32_iff {c : UInt8} {n : Nat} :
    takes c (toInt32 n) = takes c n ↔
      (c = chr 'd' ∨ c = chr 'u' ∨ c = chr 'x' → n < 2 ^ 32 ∨ 2 ≤ n % 2 ^ 32) := by
  by_cases hd : c = chr 'd'
  · have htakes : ∀ m, takes c m = some (signedType m) := fun m => by rw [hd]; rfl
    rw [htakes, htakes, Option.some.injEq, signedType_toInt32_iff]
    simp only [hd, true_or, forall_const]
  by_cases hux : c = chr 'u' ∨ c = chr 'x'
  · have hne : c ≠ chr 'c' := by
      rcases hux with rfl | rfl <;> decide
    have htakes : ∀ m, takes c m = some (unsignedType m) := fun m => by
      rw [takes, if_neg hne, if_neg hd, if_pos hux]
    rw [htakes, htakes, Option.some.injEq, unsignedType_toInt32_iff]
    simp only [hux, or_true, forall_const]
  · have htakes : takes c (toInt32 n) = takes c n := by
      unfold takes
      rw [if_neg hd, if_neg hd, if_neg hux, if_neg hux]
    simp only [htakes, hd, hux, or_self, false_imp_iff]

/-! ## One directive -/

/-- No flag follows the flags of a directive. -/
theorem isFlag_terminator (i : Nat) (t : List UInt8) : isFlag (itemAt i t).terminator = false := by
  show isFlag ((t.dropWhile isFlag).headD 0) = false
  cases hrest : t.dropWhile isFlag with
  | nil => rfl
  | cons c rest =>
    have hhead := List.head?_dropWhile_not isFlag t
    rw [hrest] at hhead
    simpa using hhead

theorem isNumeric_of_isFlag {c : UInt8} (h : isFlag c = false) : isNumeric c = false := by
  simp only [isFlag, isNumeric, decide_eq_false_iff_not, not_or] at h ⊢
  exact ⟨h.2.2.1, h.2.1⟩

section Item

variable {s : List UInt8} {i : Nat} {c : UInt8} {t : List UInt8}

/-- What follows the flags of the directive at offset `i`. -/
theorem drop_last (hdrop : s.drop i = c :: t) : s.drop (itemAt i t).last = t.dropWhile isFlag := by
  show s.drop (i + 1 + (t.takeWhile isFlag).length) = _
  rw [← List.drop_drop, drop_succ_of_drop hdrop, drop_length_takeWhile]

theorem last_le (hdrop : s.drop i = c :: t) : (itemAt i t).last ≤ s.length := by
  have hle := add_length_takeWhile_le isFlag (lt_length_of_drop hdrop)
  rwa [drop_succ_of_drop hdrop] at hle

/-- The offset behind a directive.  The NUL does not belong to it. -/
def Item.next (d : Item) : Nat := if d.terminator = 0 then d.last else d.last + 1

theorem lt_next : i < (itemAt i t).next := by
  have hlast : i < (itemAt i t).last := by
    show i < i + 1 + _
    omega
  unfold Item.next
  split <;> omega

/-- The grammar goes on behind the directive. -/
theorem grammar_next (hdrop : s.drop i = chr '%' :: t) (hnul : (0 : UInt8) ∉ s) :
    (itemAt i t).next ≤ s.length ∧
      grammar none i (s.drop i)
        = itemAt i t :: grammar none (itemAt i t).next (s.drop (itemAt i t).next) := by
  have hend := drop_last hdrop
  have hterm : (itemAt i t).terminator = (t.dropWhile isFlag).headD 0 := rfl
  rw [hdrop, grammar_percent]
  cases hrest : t.dropWhile isFlag with
  | nil =>
    rw [hrest] at hend hterm
    have hnext : (itemAt i t).next = (itemAt i t).last := if_pos hterm
    rw [hnext, hend]
    exact ⟨last_le hdrop, rfl⟩
  | cons d rest =>
    rw [hrest] at hend hterm
    have hd : d ≠ 0 := by
      rintro rfl
      exact hnul (List.mem_of_mem_drop (hend ▸ List.mem_cons_self))
    have hnext : (itemAt i t).next = (itemAt i t).last + 1 := if_neg (hterm ▸ hd)
    rw [hnext, drop_succ_of_drop hend]
    exact ⟨lt_length_of_drop hend, rfl⟩

variable {σ : Type} [Sink σ] (outside : Int → UInt8)

/-- A round at a `%`. -/
theorem step_percent (hdrop : s.drop i = chr '%' :: t) (p : σ) (args : List Arg)
    (ds : List Directive) :
    step outside (terminated s) ⟨p, args, i, .text, ds⟩
      = some ⟨p, args, (i + 1 : Nat), .directive .start 0, ds⟩ := by
  unfold step
  rw [load_terminated (Nat.le_of_lt (lt_length_of_drop hdrop)), hdrop]
  rfl

/-- A round at plain text. -/
theorem step_plain (hdrop : s.drop i = c :: t) (hnul : c ≠ 0) (hc : c ≠ chr '%') (p : σ)
    (args : List Arg) (ds : List Directive) :
    step outside (terminated s) ⟨p, args, i, .text, ds⟩
      = some ⟨addchar p c, args, (i + 1 : Nat), .text, ds⟩ := by
  unfold step
  rw [load_terminated (Nat.le_of_lt (lt_length_of_drop hdrop)), hdrop]
  show (if c = 0 then none else if c = chr '%' then _ else some _) = _
  rw [if_neg hnul, if_neg hc]
  rfl

/-- The run over the flags of a directive whose numbers can be counted, from
its `%` to its terminator. -/
theorem stepN_item (hdrop : s.drop i = chr '%' :: t)
    (hnumbers : ∀ k ∈ numbers (itemAt i t).flags.length (itemAt i t).flags, k < 2 ^ 31)
    (p : σ) (args : List Arg) (ds : List Directive) :
    ∃ m props, stepN outside (terminated s) m ⟨p, args, i, .text, ds⟩
      = some ⟨p, args, (itemAt i t).last, .directive props (toInt32 (itemAt i t).longs), ds⟩ := by
  have hflags : s.drop (i + 1) = (itemAt i t).flags ++ t.dropWhile isFlag := by
    rw [drop_succ_of_drop hdrop, itemAt, List.takeWhile_append_dropWhile]
  have hzero : (0 : Int) = toInt32 (0 : Nat) := by decide
  obtain ⟨m, props, hrun⟩ := stepN_flags outside (Nat.le_refl _) hflags
    (fun c hc => List.mem_takeWhile_imp hc) (isNumeric_of_isFlag (isFlag_terminator i t)) hnumbers
    p args .start 0 ds
  refine ⟨m + 1, props, ?_⟩
  rw [stepN_succ_of_step (step_percent outside hdrop p args ds), hrun, hzero, foldl_bump]
  rfl

/-- The round at the terminator of a directive. -/
theorem step_item (hdrop : s.drop i = c :: t) (p : σ) (args : List Arg) (props : StrProps)
    (nlong : Int) (ds : List Directive) :
    ∃ p', step outside (terminated s)
        ⟨p, args, (itemAt i t).last, .directive props nlong, ds⟩
      = (takeArg (takes (itemAt i t).terminator nlong) args).map fun rest =>
          ⟨p', rest, (itemAt i t).next, .text,
            ds ++ [⟨(itemAt i t).last, takes (itemAt i t).terminator nlong⟩]⟩ := by
  have hhead : (s.drop (itemAt i t).last).headD 0 = (itemAt i t).terminator := by
    rw [drop_last hdrop]
    rfl
  have hnext : ((itemAt i t).next : Int)
      = if (itemAt i t).terminator = 0 then ((itemAt i t).last : Int) else (itemAt i t).last + 1 := by
    unfold Item.next
    split <;> rfl
  rw [hnext]
  exact step_terminator outside (last_le hdrop) hhead (isFlag_terminator i t) p args props nlong ds

/-! ## Formats with good counters -/

/-- From every place in the text of a format with good counters: the scanner
comes to the end, with the directives and the arguments of the grammar. -/
theorem stepN_grammar (hi : i ≤ s.length) (hnul : (0 : UInt8) ∉ s)
    (hcount : ∀ d ∈ grammar none i (s.drop i), d.Countable) (p : σ) (args rest : List Arg)
    (ds : List Directive) (hargs : takeArgs (grammar none i (s.drop i)) args = some rest) :
    ∃ m st, stepN outside (terminated s) m ⟨p, args, i, .text, ds⟩ = some st ∧
      atEnd (terminated s) st = true ∧
      st.directives = ds ++ (grammar none i (s.drop i)).map Item.directive ∧ st.args = rest := by
  induction hk : s.length - i using Nat.strong_induction_on generalizing i p args ds with
  | _ k ih =>
    subst hk
    cases hdrop : s.drop i with
    | nil =>
      rw [hdrop] at hargs
      refine ⟨0, _, rfl, ?_, ?_, Option.some.inj hargs⟩
      · show decide (load (terminated s) (i : Int) = some 0) = true
        rw [load_terminated hi, hdrop]
        rfl
      · rw [grammar, List.map_nil, List.append_nil]
    | cons c t =>
      have hlt := lt_length_of_drop hdrop
      by_cases hc : c = chr '%'
      · subst hc
        obtain ⟨hle, hgrammar⟩ := grammar_next hdrop hnul
        rw [hgrammar] at hcount hargs
        have hitem := hcount _ List.mem_cons_self
        have hnext := lt_next (i := i) (t := t)
        obtain ⟨args', htake, hrest⟩ := Option.bind_eq_some_iff.1 hargs
        -- the flags, then the terminator, then the rest of the format
        obtain ⟨m, props, hflags⟩ := stepN_item outside hdrop hitem.numbers p args ds
        obtain ⟨p', hterm⟩ := step_item outside hdrop p args props (toInt32 (itemAt i t).longs) ds
        have htaken : takeArg (takes (itemAt i t).terminator (itemAt i t).longs) args = some args' :=
          htake
        rw [takes_toInt32_iff.2 hitem.longs, htaken, Option.map_some] at hterm
        obtain ⟨m', st, hrun, hend, hds, hst⟩ := ih _ (by omega) hle
          (fun d hd => hcount d (List.mem_cons_of_mem _ hd)) p' args'
          (ds ++ [(itemAt i t).directive]) hrest rfl
        refine ⟨m + (m' + 1), st, ?_, hend, ?_, hst⟩
        · rw [stepN_add hflags, stepN_succ_of_step hterm]
          exact hrun
        · rw [hds, ← hdrop, hgrammar, List.map_cons, List.append_assoc, List.singleton_append]
      · have hcn : c ≠ 0 := by
          rintro rfl
          exact hnul (List.mem_of_mem_drop (hdrop ▸ List.mem_cons_self))
        have htail : s.drop (i + 1) = t := drop_succ_of_drop hdrop
        rw [hdrop, grammar_plain hc, ← htail] at hcount hargs
        obtain ⟨m, st, hrun, hst⟩ := ih _ (by omega) hlt hcount (addchar p c) args ds hargs rfl
        refine ⟨m + 1, st, ?_, ?_⟩
        · rw [stepN_succ_of_step (step_plain outside hdrop hcn hc p args ds), hrun]
        · rw [grammar_plain hc, ← htail]
          exact hst

end Item

end HyperBench.Printf

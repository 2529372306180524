import HyperBench.Strings

/-!
# `simple_glob` of `lib/string.c`

`simpleGlob` works on the objects of its two strings and on a copy of the
pattern whose bytes are not set at first (`fresh`).

* `core` is a pattern without its stars, and `Matches` is the language that
  the pattern stands for.
* The four returns of the function compare the text with the copy, and
  `globReturn_eq` says that they decide `Between`: the text is the core with
  something in front of it or behind it, as far as there are stars.
* `globFrom_eq` removes the trailing star and `simple_glob_matches` the
  leading one.
-/

namespace HyperBench.Glob

open Ascii CObject Strings

/-! ## The function -/

/-- The returns of `simple_glob`. -/
def globReturn (text copy : List UInt8) (n : Nat) (starStart starEnd : Bool) : Option Bool :=
  if starStart && starEnd then (strstr text 0 copy 0).map Option.isSome
  else if starEnd then (strstr text 0 copy 0).map (· == some 0)
  else if starStart then do
    let textLen ← strlen text 0
    if n > textLen then return false
    let suffix : Int := 0 + textLen - n
    (strcmp text suffix copy 0).map (· == 0)
  else (strcmp text 0 copy 0).map (· == 0)

/-- `n > 0 && pattern[n - 1] == '*'`, with `pattern` moved to the offset `p`. -/
def endsInStar (pattern : List UInt8) (p : Int) (n : Nat) : Option Bool :=
  if n > 0 then (load pattern (p + n - 1)).map (· == chr '*') else some false

/-- `simple_glob` from the `strcpy` on, with `pattern` moved to the offset
`p` and the length `n` from there. -/
def globFrom (text pattern copy : List UInt8) (p : Int) (n : Nat) (starStart : Bool) :
    Option Bool := do
  let copy ← strcpy copy pattern p
  if ← endsInStar pattern p n then
    let copy ← store copy (n - 1 : Nat) 0
    globReturn text copy (n - 1) starStart true
  else
    globReturn text copy n starStart false

/-- `simple_glob(text, pattern)`, where `fresh` holds the bytes that lie in
`char copy[n + 1]` before anything is stored there. -/
def simpleGlob (fresh : Nat → UInt8) (text pattern : List UInt8) : Option Bool := do
  let n ← strlen pattern 0
  let copy := (List.range ((n + 1) % 2 ^ 64)).map fresh
  let c ← load pattern 0
  if c = chr '*' then globFrom text pattern copy 1 (n - 1) true
  else globFrom text pattern copy 0 n false

/-! ## The language of a pattern -/

/-- A string of the program: no NUL inside, and an object whose size is a
`size_t`. -/
structure CStr where
  bytes : List UInt8
  no_nul : (0 : UInt8) ∉ bytes
  size_le : bytes.length + 1 ≤ SIZE_MAX

def leadingStar (pattern : List UInt8) : Bool := pattern.head? == some (chr '*')

def withoutLeading (pattern : List UInt8) : List UInt8 :=
  if leadingStar pattern then pattern.tail else pattern

def trailingStar (pattern : List UInt8) : Bool := pattern.getLast? == some (chr '*')

def withoutTrailing (pattern : List UInt8) : List UInt8 :=
  if trailingStar pattern then pattern.dropLast else pattern

/-- The pattern without one leading star and then without one trailing star. -/
def core (pattern : List UInt8) : List UInt8 := withoutTrailing (withoutLeading pattern)

/-- The text is `q`, with something in front of it only for a star at the
start and something behind it only for a star at the end. -/
def Between (starStart starEnd : Bool) (text q : List UInt8) : Prop :=
  ∃ x y, text = x ++ q ++ y ∧ (starStart = false → x = []) ∧ (starEnd = false → y = [])

/-- The texts that a pattern stands for. -/
def Matches (text pattern : List UInt8) : Prop :=
  Between (leadingStar pattern) (trailingStar (withoutLeading pattern)) text (core pattern)

theorem between_isInfix {s q : List UInt8} : Between true true s q ↔ q <:+: s := by
  constructor
  · intro ⟨x, y, hs, _, _⟩
    exact ⟨x, y, hs.symm⟩
  · intro ⟨x, y, hs⟩
    exact ⟨x, y, hs.symm, nofun, nofun⟩

theorem between_isPrefix {s q : List UInt8} : Between false true s q ↔ q <+: s := by
  constructor
  · intro ⟨x, y, hs, hx, _⟩
    rw [hx rfl, List.nil_append] at hs
    exact ⟨y, hs.symm⟩
  · intro ⟨y, hs⟩
    exact ⟨[], y, hs.symm, fun _ => rfl, nofun⟩

theorem between_isSuffix {s q : List UInt8} : Between true false s q ↔ q <:+ s := by
  constructor
  · intro ⟨x, y, hs, _, hy⟩
    rw [hy rfl, List.append_nil] at hs
    exact ⟨x, hs.symm⟩
  · intro ⟨x, hs⟩
    exact ⟨x, [], by rw [List.append_nil, hs], nofun, fun _ => rfl⟩

theorem between_eq {s q : List UInt8} : Between false false s q ↔ s = q := by
  constructor
  · intro ⟨x, y, hs, hx, hy⟩
    rw [hx rfl, hy rfl, List.nil_append, List.append_nil] at hs
    exact hs
  · intro hs
    exact ⟨[], [], by rw [List.nil_append, List.append_nil, hs], fun _ => rfl, fun _ => rfl⟩

/-! ## The comparisons -/

theorem infix_iff_drop {s q : List UInt8} : q <:+: s ↔ ∃ k, q <+: s.drop k := by
  constructor
  · intro ⟨x, y, hs⟩
    refine ⟨x.length, y, ?_⟩
    rw [← hs, List.append_assoc, List.drop_left]
  · intro ⟨k, hk⟩
    exact hk.isInfix.trans (List.drop_suffix k s).isInfix

theorem firstAt_isSome {s q : List UInt8} {r : Option Nat} (h : FirstAt q s r) :
    r.isSome = true ↔ q <:+: s := by
  rw [infix_iff_drop]
  cases r with
  | none => exact iff_of_false nofun fun ⟨k, hk⟩ => h k hk
  | some k => exact iff_of_true rfl ⟨k, h.1⟩

/-- The first occurrence is the start exactly for a prefix. -/
theorem firstAt_zero {s q : List UInt8} {r : Option Nat} (h : FirstAt q s r) :
    r = some 0 ↔ q <+: s := by
  cases r with
  | none => exact iff_of_false nofun (h 0)
  | some k =>
    cases k with
    | zero => exact iff_of_true rfl h.1
    | succ k => exact iff_of_false nofun (h.2 0 (Nat.succ_pos k))

/-- The returns of `simple_glob` for a copy that holds `q`. -/
theorem globReturn_eq {text copy s q : List UInt8} (hs : StrAt text 0 s) (hq : StrAt copy 0 q)
    (hlen : s.length < SIZE_MAX) (hlen' : q.length < SIZE_MAX) (starStart starEnd : Bool) :
    ∃ b, globReturn text copy q.length starStart starEnd = some b ∧
      (b = true ↔ Between starStart starEnd s q) := by
  have hsize : SIZE_MAX < 2 ^ 64 := by decide
  cases starEnd with
  | true =>
    obtain ⟨r, hr, hfirst⟩ := strstr_eq hs hq (by omega) (by omega)
    have hfound : strstr text 0 copy 0 = some (r.map fun k => ((0 + k : Nat) : Int)) := hr
    cases starStart with
    | true =>
      refine ⟨_, congrArg (Option.map Option.isSome) hfound, ?_⟩
      rw [Option.isSome_map, between_isInfix, firstAt_isSome hfirst]
    | false =>
      refine ⟨_, congrArg (Option.map (· == some 0)) hfound, ?_⟩
      rw [between_isPrefix, ← firstAt_zero hfirst, beq_iff_eq, Option.map_eq_some_iff]
      constructor
      · intro ⟨k, hk, hzero⟩
        rw [hk, show k = 0 by omega]
      · intro hk
        exact ⟨0, hk, rfl⟩
  | false =>
    cases starStart with
    | true =>
      have htext : strlen text 0 = some s.length := strlen_eq hs (by omega)
      rw [between_isSuffix]
      by_cases hlong : q.length > s.length
      · refine ⟨false, ?_, iff_of_false nofun fun h => absurd h.length_le (by omega)⟩
        show (strlen text 0).bind _ = _
        rw [htext, Option.bind_some, if_pos hlong]
        rfl
      · obtain ⟨r, hr, hzero⟩ := strcmp_eq (hs.drop (s.length - q.length) (by omega)) hq
          (by rw [List.length_drop]; omega)
        refine ⟨r == 0, ?_, ?_⟩
        · show (strlen text 0).bind _ = _
          rw [htext, Option.bind_some, if_neg hlong,
            show (0 + s.length - q.length : Int) = (0 + (s.length - q.length) : Nat) by omega]
          exact congrArg (Option.map (· == 0)) hr
        · rw [beq_iff_eq, hzero, List.suffix_iff_eq_drop, eq_comm]
    | false =>
      obtain ⟨r, hr, hzero⟩ := strcmp_eq hs hq hlen
      refine ⟨r == 0, congrArg (Option.map (· == 0)) hr, ?_⟩
      rw [between_eq, beq_iff_eq, hzero]

/-! ## The stars -/

theorem trailingStar_concat (q : List UInt8) (c : UInt8) :
    trailingStar (q ++ [c]) = (c == chr '*') := by
  rw [trailingStar, List.getLast?_concat]
  rfl

/-- A pattern with a trailing star. -/
theorem eq_concat_of_trailingStar {p : List UInt8} (h : trailingStar p = true) :
    p = withoutTrailing p ++ [chr '*'] := by
  rw [withoutTrailing, if_pos h]
  exact (List.dropLast_append_getLast? _ (beq_iff_eq.1 h)).symm

theorem endsInStar_eq {pattern p : List UInt8} {i : Nat} (hp : StrAt pattern i p) :
    endsInStar pattern i p.length = some (trailingStar p) := by
  obtain rfl | ⟨q, c, rfl⟩ := p.eq_nil_or_concat'
  · rfl
  · have hdrop := hp.drop q.length (by rw [List.length_append]; omega)
    rw [List.drop_left] at hdrop
    have hoffset : (i : Int) + (q ++ [c]).length - 1 = (i + q.length : Nat) := by
      rw [List.length_append, List.length_singleton]
      omega
    have hpos : (q ++ [c]).length > 0 := by
      rw [List.length_append]
      exact Nat.succ_pos _
    rw [endsInStar, if_pos hpos, hoffset, hdrop.load_cons, trailingStar_concat]
    rfl

/-- `simple_glob` from the `strcpy` on, for a pattern that has lost its
leading star. -/
theorem globFrom_eq {text pattern copy s p : List UInt8} {i : Nat} (hs : StrAt text 0 s)
    (hp : StrAt pattern i p) (hcopy : p.length < copy.length) (hlen : s.length < SIZE_MAX)
    (hlen' : p.length < SIZE_MAX) (starStart : Bool) :
    ∃ b, globFrom text pattern copy i p.length starStart = some b ∧
      (b = true ↔ Between starStart (trailingStar p) s (withoutTrailing p)) := by
  unfold globFrom
  rw [strcpy_eq hp hcopy, endsInStar_eq hp]
  generalize copy.drop (p.length + 1) = g
  show ∃ b, (if trailingStar p = true then _ else _) = some b ∧ _
  by_cases hstar : trailingStar p = true
  · have hp' := eq_concat_of_trailingStar hstar
    rw [if_pos hstar, hstar]
    generalize withoutTrailing p = q at hp' ⊢
    subst hp'
    rw [List.length_append, List.length_singleton] at hlen' ⊢
    -- the star of the copy becomes its NUL
    have hstore : store (q ++ [chr '*'] ++ 0 :: g) ((q.length + 1 - 1 : Nat) : Int) 0
        = some (q ++ 0 :: 0 :: g) := by
      rw [Nat.add_sub_cancel, List.append_assoc]
      exact store_append q (chr '*') 0 (0 :: g)
    have hq : StrAt (q ++ 0 :: 0 :: g) 0 q :=
      ⟨fun hmem => hp.1 (List.mem_append_left _ hmem), 0 :: g, rfl⟩
    rw [hstore]
    exact globReturn_eq hs hq hlen (by omega) starStart true
  · have hfalse := Bool.eq_false_iff.2 hstar
    rw [if_neg hstar, withoutTrailing, if_neg hstar, hfalse]
    exact globReturn_eq hs ⟨hp.1, g, rfl⟩ hlen hlen' starStart false

theorem headD_eq_star_iff (p : List UInt8) :
    p.headD 0 = chr '*' ↔ leadingStar p = true := by
  cases p with
  | nil => decide
  | cons c q =>
    rw [leadingStar, beq_iff_eq, List.head?_cons, Option.some_inj]
    rfl

/-- A pattern with a leading star. -/
theorem eq_cons_of_leadingStar {p : List UInt8} (h : leadingStar p = true) :
    p = chr '*' :: withoutLeading p := by
  rw [withoutLeading, if_pos h]
  exact (List.cons_head?_tail (beq_iff_eq.1 h)).symm

/-- `simple_glob` up to the `strcpy`: its copy has room for the pattern. -/
theorem simpleGlob_eq (fresh : Nat → UInt8) (text : List UInt8) {p : List UInt8}
    (hnul : (0 : UInt8) ∉ p) (hsize : p.length + 1 ≤ SIZE_MAX) :
    ∃ copy, copy.length = p.length + 1 ∧ simpleGlob fresh text (terminated p)
      = if leadingStar p = true then globFrom text (terminated p) copy 1 (p.length - 1) true
        else globFrom text (terminated p) copy 0 p.length false := by
  have hmax : SIZE_MAX < 2 ^ 64 := by decide
  have hn : strlen (terminated p) 0 = some p.length :=
    strlen_eq (strAt_terminated hnul (Nat.zero_le _)) (by omega)
  have hload : load (terminated p) 0 = some (p.headD 0) := load_terminated (Nat.zero_le _)
  refine ⟨(List.range ((p.length + 1) % 2 ^ 64)).map fresh, ?_, ?_⟩
  · rw [List.length_map, List.length_range, Nat.mod_eq_of_lt (by omega)]
  · simp only [← headD_eq_star_iff]
    rw [simpleGlob, hn, hload]
    rfl

/-- `simple_glob` decides the language of its pattern, and reads and writes
only inside of its two strings and of its copy. -/
theorem simple_glob_matches (text pattern : CStr) (fresh : Nat → UInt8) :
    ∃ b, simpleGlob fresh (terminated text.bytes) (terminated pattern.bytes) = some b ∧
      (b = true ↔ Matches text.bytes pattern.bytes) := by
  obtain ⟨p, hnul, hsize⟩ := pattern
  obtain ⟨copy, hcopy, hglob⟩ := simpleGlob_eq fresh (terminated text.bytes) hnul hsize
  have hs : StrAt (terminated text.bytes) 0 text.bytes :=
    strAt_terminated text.no_nul (Nat.zero_le _)
  have hp : StrAt (terminated p) 0 p := strAt_terminated hnul (Nat.zero_le _)
  have hlen : text.bytes.length < SIZE_MAX := text.size_le
  unfold Matches core
  rw [hglob]
  by_cases hstar : leadingStar p = true
  · have hp' := eq_cons_of_leadingStar hstar
    rw [if_pos hstar, hstar]
    generalize withoutLeading p = q at hp' ⊢
    subst hp'
    rw [List.length_cons] at hcopy hsize ⊢
    rw [Nat.add_sub_cancel]
    exact globFrom_eq hs hp.tail (by omega) hlen (by omega) true
  · have hfalse := Bool.eq_false_iff.2 hstar
    rw [if_neg hstar, withoutLeading, if_neg hstar, hfalse]
    exact globFrom_eq hs hp (by omega) hlen hsize false

example :
    let text : CStr := ⟨ascii "timer", by decide +kernel, by decide⟩
    let pattern : CStr := ⟨ascii "*er", by decide +kernel, by decide⟩
    simpleGlob (fun _ => 7) (terminated text.bytes) (terminated pattern.bytes) = some true := by
  decide

end HyperBench.Glob

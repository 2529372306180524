import HyperBench.Lib.Ascii
import HyperBench.Lib.CObject
import HyperBench.Lib.LexOrder
import Mathlib.Data.List.Infix
import Mathlib.Algebra.Group.Int.Defs
import Mathlib.Algebra.Group.Nat.Defs
import Mathlib.Data.Int.Notation

/-!
# `lib/string.c`

The string functions of the kernel that `simple_glob` uses, on objects of a
known size.  A function has no answer when it reads or writes outside of one
of its objects.

`StrAt o i s` says that the string `s` lies in the object `o` from offset `i`
on, and each function has one lemma on such strings:

* `strlen_eq`, `strcpy_eq`: their answer,
* `strncmpLoop_eq`, `memcmp_eq`: the first difference that they answer, by
  which `strcmp_eq` and `memcmp_block` know equal strings,
* `strstr_eq`: it answers the first occurrence.
-/

namespace HyperBench.Strings

open Ascii CObject LexOrder

/-- The largest `size_t`. -/
def SIZE_MAX : Nat := 2 ^ 64 - 1

def strlen (o : List UInt8) (buf : Int) : Option Nat := do
  let (_, len) ← scanWhile o (· ≠ 0) (fun len _ => (len + 1) % 2 ^ 64) buf 0
  return len

/-- `while ((*p++ = *src++) != 0)`, with at most `fuel` rounds. -/
def copyLoop (src : List UInt8) : Nat → List UInt8 → Int → Int → Option (List UInt8)
  | 0, _, _, _ => none
  | fuel + 1, dest, p, j => do
    let c ← load src j
    let dest ← store dest p c
    if c ≠ 0 then copyLoop src fuel dest (p + 1) (j + 1) else some dest

/-- `strcat(dest, src + j)`: the bytes of `dest` behind it. -/
def strcat (dest src : List UInt8) (j : Int) : Option (List UInt8) := do
  let (p, _) ← scanWhile dest (· ≠ 0) (fun _ _ => ()) 0 ()
  copyLoop src (src.length + 1) dest p j

def strcpy (dest src : List UInt8) (j : Int) : Option (List UInt8) := do
  let dest ← store dest 0 0
  strcat dest src j

/-- The loop of `strncmp`.  A `char` is signed. -/
def strncmpLoop (a b : List UInt8) : Nat → Int → Int → Nat → Option Int
  | 0, _, _, _ => none
  | fuel + 1, i, j, n =>
    if n = 0 then some 0
    else do
      let x ← load a i
      let y ← load b j
      if x ≠ y ∨ x = 0 then some (x.toInt8.toInt - y.toInt8.toInt)
      else strncmpLoop a b fuel (i + 1) (j + 1) (n - 1)

/-- `strncmp(a + i, b + j, n)`. -/
def strncmp (a : List UInt8) (i : Int) (b : List UInt8) (j : Int) (n : Nat) : Option Int :=
  strncmpLoop a b (a.length + 1) i j n

def strcmp (a : List UInt8) (i : Int) (b : List UInt8) (j : Int) : Option Int :=
  strncmp a i b j SIZE_MAX

/-- `memcmp(a + i, b + j, n)`. -/
def memcmp (a b : List UInt8) : Nat → Int → Int → Option Int
  | 0, _, _ => some 0
  | n + 1, i, j => do
    let x ← load a i
    let y ← load b j
    let ret : Int := x.toNat - y.toNat
    if ret ≠ 0 then some ret else memcmp a b n (i + 1) (j + 1)

/-- `while (l1 >= l2)` of `strstr`, where `l2` is not 0. -/
def strstrLoop (o₁ o₂ : List UInt8) (s2 : Int) (l2 : Nat) : Nat → Int → Option (Option Int)
  | 0, _ => some none
  | l1 + 1, s1 =>
    if l2 ≤ l1 + 1 then do
      let ret ← memcmp o₁ o₂ l2 s1 s2
      if ret = 0 then some (some s1) else strstrLoop o₁ o₂ s2 l2 l1 (s1 + 1)
    else some none

/-- `strstr(s1, s2)`, with `none` inside for a null pointer. -/
def strstr (o₁ : List UInt8) (s1 : Int) (o₂ : List UInt8) (s2 : Int) : Option (Option Int) := do
  let l2 ← strlen o₂ s2
  if l2 = 0 then some (some s1)
  else do
    let l1 ← strlen o₁ s1
    strstrLoop o₁ o₂ s2 l2 l1 s1

/-! ## Strings in objects -/

/-- The string `s` and its NUL lie in `o` from `i` on. -/
def StrAt (o : List UInt8) (i : Nat) (s : List UInt8) : Prop :=
  (0 : UInt8) ∉ s ∧ ∃ rest, o.drop i = s ++ 0 :: rest

theorem strAt_terminated {s : List UInt8} (h : (0 : UInt8) ∉ s) {i : Nat} (hi : i ≤ s.length) :
    StrAt (terminated s) i (s.drop i) :=
  ⟨fun hmem => h (List.mem_of_mem_drop hmem), [], drop_terminated hi⟩

theorem StrAt.ne_nul {o s : List UInt8} {i : Nat} (h : StrAt o i s) {c : UInt8} (hc : c ∈ s) :
    c ≠ 0 := fun hnul => h.1 (hnul ▸ hc)

/-- The string behind its first character. -/
theorem StrAt.tail {o s : List UInt8} {i : Nat} {c : UInt8} (h : StrAt o i (c :: s)) :
    StrAt o (i + 1) s := by
  obtain ⟨hnul, rest, hdrop⟩ := h
  exact ⟨fun hmem => hnul (List.mem_cons_of_mem c hmem), rest, drop_succ_of_drop hdrop⟩

/-- The string from its `k`-th character on. -/
theorem StrAt.drop {o s : List UInt8} {i : Nat} (h : StrAt o i s) (k : Nat) (hk : k ≤ s.length) :
    StrAt o (i + k) (s.drop k) := by
  obtain ⟨hnul, rest, hdrop⟩ := h
  refine ⟨fun hmem => hnul (List.mem_of_mem_drop hmem), rest, ?_⟩
  rw [← List.drop_drop, hdrop, List.drop_append_of_le_length hk]

theorem StrAt.load_cons {o s : List UInt8} {i : Nat} {c : UInt8} (h : StrAt o i (c :: s)) :
    load o i = some c := by
  obtain ⟨-, rest, hdrop⟩ := h
  exact load_of_drop hdrop

theorem StrAt.load_nil {o : List UInt8} {i : Nat} (h : StrAt o i []) : load o i = some 0 := by
  obtain ⟨-, rest, hdrop⟩ := h
  exact load_of_drop hdrop

theorem StrAt.length_lt {o s : List UInt8} {i : Nat} (h : StrAt o i s) :
    s.length < o.length := by
  obtain ⟨-, rest, hdrop⟩ := h
  have hlen := congrArg List.length hdrop
  rw [List.length_drop, List.length_append, List.length_cons] at hlen
  omega

/-! ## `strlen` and `strcpy` -/

theorem foldl_len (s : List UInt8) (n : Nat) (h : n + s.length < 2 ^ 64) :
    s.foldl (fun len _ => (len + 1) % 2 ^ 64) n = n + s.length := by
  induction s generalizing n with
  | nil => rfl
  | cons c s ih =>
    rw [List.length_cons] at h ⊢
    rw [List.foldl_cons, Nat.mod_eq_of_lt (by omega), ih (n + 1) (by omega)]
    omega

theorem strlen_eq {o s : List UInt8} {i : Nat} (h : StrAt o i s) (hs : s.length < 2 ^ 64) :
    strlen o i = some s.length := by
  obtain ⟨rest, hdrop⟩ := h.2
  have hscan := scanWhile_eq (fun len _ => (len + 1) % 2 ^ 64)
    (fun c hc => decide_eq_true (h.ne_nul hc)) (decide_eq_false fun h => h rfl) hdrop 0
  rw [strlen, hscan, foldl_len s 0 (by omega), Nat.zero_add]
  rfl

/-- The copy behind the bytes `w` of the target. -/
theorem copyLoop_eq {src s ds : List UInt8} {fuel j : Nat} (h : StrAt src j s)
    (hfuel : s.length < fuel) (hlen : s.length < ds.length) (w : List UInt8) :
    copyLoop src fuel (w ++ ds) w.length j = some (w ++ s ++ 0 :: ds.drop (s.length + 1)) := by
  induction s generalizing fuel j w ds with
  | nil =>
    obtain ⟨k, rfl⟩ : ∃ k, fuel = k + 1 := Nat.exists_eq_add_one.2 hfuel
    obtain ⟨d, ds, rfl⟩ := List.exists_cons_of_length_pos hlen
    rw [copyLoop, h.load_nil]
    show (store (w ++ d :: ds) w.length 0).bind _ = _
    rw [store_append]
    simp
  | cons c s ih =>
    rw [List.length_cons] at hfuel hlen
    obtain ⟨k, rfl⟩ : ∃ k, fuel = k + 1 := ⟨fuel - 1, by omega⟩
    obtain ⟨d, ds, rfl⟩ := List.exists_cons_of_length_pos (show 0 < ds.length by omega)
    rw [List.length_cons] at hlen
    have hc : c ≠ 0 := h.ne_nul List.mem_cons_self
    have hrest := ih h.tail (show s.length < k by omega) (show s.length < ds.length by omega)
      (w ++ [c])
    have hnext : w ++ c :: ds = (w ++ [c]) ++ ds := by
      rw [List.append_assoc, List.singleton_append]
    have hptr : (w.length : Int) + 1 = (w ++ [c]).length := by
      rw [List.length_append, List.length_singleton]
      rfl
    rw [copyLoop, h.load_cons]
    show (store (w ++ d :: ds) w.length c).bind _ = _
    rw [store_append, Option.bind_some, if_pos hc, hnext, hptr]
    refine hrest.trans ?_
    rw [List.append_assoc w, List.singleton_append, List.length_cons, List.drop_succ_cons]

/-- The target holds the string, its NUL, and what lay behind them. -/
theorem strcpy_eq {dest src s : List UInt8} {j : Nat} (h : StrAt src j s)
    (hlen : s.length < dest.length) :
    strcpy dest src j = some (s ++ 0 :: dest.drop (s.length + 1)) := by
  obtain ⟨d, ds, rfl⟩ := List.exists_cons_of_length_pos (show 0 < dest.length by omega)
  have hstore : store (d :: ds) 0 0 = some (0 :: ds) := store_append [] d 0 ds
  have hscan : scanWhile (0 :: ds) (· ≠ 0) (fun _ _ => ()) 0 () = some (0, ()) :=
    scanWhile_eq (i := 0) (fun _ _ => ()) (w := []) (fun c hc => absurd hc List.not_mem_nil)
      (decide_eq_false fun h => h rfl) rfl ()
  have hcopy : copyLoop src (src.length + 1) (0 :: ds) 0 j
      = some (s ++ 0 :: (0 :: ds).drop (s.length + 1)) :=
    copyLoop_eq h (Nat.lt_succ_of_lt h.length_lt) hlen []
  unfold strcpy strcat
  rw [hstore, Option.bind_eq_bind, Option.bind_some, hscan]
  exact hcopy

/-! ## Comparisons -/

/-- A byte as an `unsigned char`. -/
def unsignedChar (c : UInt8) : Int := c.toNat

/-- A byte as a `char`. -/
def signedChar (c : UInt8) : Int := c.toInt8.toInt

theorem unsignedChar_injective : Function.Injective unsignedChar := fun _ _ h =>
  UInt8.toNat_inj.1 (Int.ofNat_inj.1 h)

theorem signedChar_injective : Function.Injective signedChar := fun _ _ h =>
  congrArg Int8.toUInt8 (Int8.toInt_inj.1 h)

/-- `strncmp` answers the difference of the first two `char`s that differ. -/
theorem strncmpLoop_eq {a b s t : List UInt8} {i j fuel : Nat} (hs : StrAt a i s)
    (ht : StrAt b j t) (hfuel : s.length < fuel) (n : Nat) :
    strncmpLoop a b fuel i j n
      = some (compareBy signedChar (firstDifference n (terminated s) (terminated t))) := by
  induction s generalizing t i j fuel n with
  | nil =>
    obtain ⟨k, rfl⟩ : ∃ k, fuel = k + 1 := Nat.exists_eq_add_one.2 hfuel
    cases n with
    | zero => rfl
    | succ n =>
      rw [strncmpLoop, if_neg (Nat.succ_ne_zero n), hs.load_nil]
      cases t with
      | nil =>
        rw [ht.load_nil, terminated, List.nil_append, firstDifference_cons_self,
          firstDifference_nil]
        rfl
      | cons d t =>
        have hd : (0 : UInt8) ≠ d := (ht.ne_nul List.mem_cons_self).symm
        rw [ht.load_cons, terminated, terminated, List.nil_append, List.cons_append,
          firstDifference_cons_ne hd]
        exact if_pos (.inr rfl)
  | cons c s ih =>
    rw [List.length_cons] at hfuel
    obtain ⟨k, rfl⟩ : ∃ k, fuel = k + 1 := ⟨fuel - 1, by omega⟩
    have hc : c ≠ 0 := hs.ne_nul List.mem_cons_self
    cases n with
    | zero => rfl
    | succ n =>
      rw [strncmpLoop, if_neg (Nat.succ_ne_zero n), hs.load_cons]
      cases t with
      | nil =>
        rw [ht.load_nil, terminated, terminated, List.nil_append, List.cons_append,
          firstDifference_cons_ne hc]
        exact if_pos (.inl hc)
      | cons d t =>
        rw [ht.load_cons, terminated, terminated, List.cons_append, List.cons_append]
        by_cases hcd : c = d
        · subst hcd
          rw [firstDifference_cons_self]
          refine (if_neg ?_).trans (ih hs.tail ht.tail (show s.length < k by omega) n)
          exact fun h => h.elim (fun h => h rfl) hc
        · rw [firstDifference_cons_ne hcd]
          exact if_pos (.inl hcd)

/-- A comparison of two strings to the end answers 0 exactly for equal ones. -/
theorem strcmp_eq {a b s t : List UInt8} {i j : Nat} (hs : StrAt a i s) (ht : StrAt b j t)
    (hlen : s.length < SIZE_MAX) : ∃ r, strcmp a i b j = some r ∧ (r = 0 ↔ s = t) := by
  refine ⟨_, strncmpLoop_eq hs ht (Nat.lt_succ_of_lt hs.length_lt) SIZE_MAX, ?_⟩
  refine (compareBy_eq_zero_iff signedChar_injective hs.1 ht.1 SIZE_MAX).trans ⟨fun h => ?_, ?_⟩
  · exact eq_of_take_eq ht.1 hlen (List.map_injective_iff.2 signedChar_injective h)
  · rintro rfl
    rfl

/-- `memcmp` answers the difference of the first two `unsigned char`s that
differ. -/
theorem memcmp_eq {a b u v : List UInt8} {i j : Nat} (hu : a.drop i = u) (hv : b.drop j = v)
    (n : Nat) :
    memcmp a b (min n (min u.length v.length)) i j
      = some (compareBy unsignedChar (firstDifference n u v)) := by
  induction n generalizing u v i j with
  | zero =>
    rw [Nat.zero_min, firstDifference_zero]
    rfl
  | succ n ih =>
    cases u with
    | nil =>
      rw [List.length_nil, Nat.zero_min, Nat.min_zero, firstDifference_nil]
      rfl
    | cons c u =>
      cases v with
      | nil => rfl
      | cons d v =>
        have hload : load a i = some c := load_of_drop hu
        have hload' : load b j = some d := load_of_drop hv
        rw [List.length_cons, List.length_cons, Nat.add_min_add_right, Nat.add_min_add_right,
          memcmp, hload, hload']
        by_cases hcd : c = d
        · subst hcd
          rw [firstDifference_cons_self]
          refine (if_neg ?_).trans (ih (drop_succ_of_drop hu) (drop_succ_of_drop hv))
          exact fun h => h (Int.sub_self _)
        · rw [firstDifference_cons_ne hcd]
          exact if_pos fun h => hcd (unsignedChar_injective (Int.sub_eq_zero.1 h))

/-- `memcmp` with the bytes of `t`, where there are as many to compare with. -/
theorem memcmp_block {a b u t ra rb : List UInt8} {i j : Nat} (hu : a.drop i = u ++ ra)
    (ht : b.drop j = t ++ rb) (hlen : t.length ≤ u.length) :
    ∃ r, memcmp a b t.length i j = some r ∧ (r = 0 ↔ t <+: u) := by
  have hle : t.length ≤ (u ++ ra).length := by
    rw [List.length_append]
    omega
  have hle' : t.length ≤ (t ++ rb).length := by
    rw [List.length_append]
    omega
  have hcmp := memcmp_eq hu ht t.length
  rw [Nat.min_eq_left (Nat.le_min.2 ⟨hle, hle'⟩)] at hcmp
  refine ⟨_, hcmp, ?_⟩
  rw [compareBy_eq_zero unsignedChar_injective, firstDifference_eq_none_iff hle hle',
    List.take_append_of_le_length hlen, List.take_left, List.prefix_iff_eq_take, eq_comm]

/-! ## `strstr` -/

/-- Where `t` occurs first in `s`, if it does. -/
def FirstAt (t s : List UInt8) : Option Nat → Prop
  | none => ∀ k, ¬ t <+: s.drop k
  | some k => t <+: s.drop k ∧ ∀ m, m < k → ¬ t <+: s.drop m

/-- An occurrence behind the first character. -/
theorem FirstAt.cons {t s : List UInt8} {r : Option Nat} {c : UInt8} (h : FirstAt t s r)
    (hc : ¬ t <+: c :: s) : FirstAt t (c :: s) (r.map (· + 1)) := by
  cases r with
  | none =>
    intro k
    cases k with
    | zero => exact hc
    | succ k => exact h k
  | some k =>
    refine ⟨h.1, fun m hm => ?_⟩
    cases m with
    | zero => exact hc
    | succ m => exact h.2 m (Nat.lt_of_succ_lt_succ hm)

theorem strstrLoop_eq {o₁ o₂ s t : List UInt8} {i j : Nat} (hs : StrAt o₁ i s) (ht : StrAt o₂ j t)
    (hne : t ≠ []) :
    ∃ r, strstrLoop o₁ o₂ j t.length s.length i = some (r.map fun k => ((i + k : Nat) : Int)) ∧
      FirstAt t s r := by
  induction s generalizing i with
  | nil =>
    refine ⟨none, rfl, fun k hstart => hne ?_⟩
    rw [List.drop_nil] at hstart
    exact List.prefix_nil.1 hstart
  | cons c s ih =>
    rw [List.length_cons, strstrLoop]
    by_cases hfits : t.length ≤ s.length + 1
    · obtain ⟨rest, hdrop⟩ := hs.2
      obtain ⟨rest', hdrop'⟩ := ht.2
      obtain ⟨ret, hret, hstart⟩ := memcmp_block hdrop hdrop' hfits
      rw [if_pos hfits, hret]
      show ∃ r, (if ret = 0 then _ else _) = _ ∧ _
      by_cases hfound : ret = 0
      · rw [if_pos hfound]
        exact ⟨some 0, rfl, hstart.1 hfound, fun m hm => absurd hm (Nat.not_lt_zero m)⟩
      · obtain ⟨r, hr, hfirst⟩ := ih hs.tail
        refine ⟨r.map (· + 1), ?_, hfirst.cons fun h => hfound (hstart.2 h)⟩
        rw [if_neg hfound]
        refine hr.trans ?_
        rw [Option.map_map]
        congr 2
        funext k
        show ((i + 1 + k : Nat) : Int) = ((i + (k + 1) : Nat) : Int)
        congr 1
        omega
    · refine ⟨none, if_neg hfits, fun k hstart => ?_⟩
      have hlen := hstart.length_le
      rw [List.length_drop, List.length_cons] at hlen
      omega

theorem strstr_eq {o₁ o₂ s t : List UInt8} {i j : Nat} (hs : StrAt o₁ i s) (ht : StrAt o₂ j t)
    (hlen : s.length < 2 ^ 64) (hlen' : t.length < 2 ^ 64) :
    ∃ r, strstr o₁ i o₂ j = some (r.map fun k => ((i + k : Nat) : Int)) ∧ FirstAt t s r := by
  unfold strstr
  rw [strlen_eq ht hlen', strlen_eq hs hlen]
  show ∃ r, (if t.length = 0 then _ else strstrLoop o₁ o₂ j t.length s.length i) = _ ∧ _
  by_cases hnil : t = []
  · subst hnil
    exact ⟨some 0, rfl, List.nil_prefix, fun m hm => absurd hm (Nat.not_lt_zero m)⟩
  · rw [if_neg fun h => hnil (List.length_eq_zero_iff.1 h)]
    exact strstrLoop_eq hs ht hnil

end HyperBench.Strings

import Mathlib.Data.List.TakeWhile

/-!
# Byte objects with checked accesses

An object of a C program is a list of bytes, and a pointer into it is an
offset.  `load` and `store` have no answer outside of the object, so a
computation over an object that has an answer has made no access outside of
it.

`scanWhile` is the loop that walks over the bytes at a pointer as long as
they have some property and updates an accumulator on its way.
`scanWhile_eq` says what it answers.  It needs no bound on its rounds: a walk
that does not end inside the object leaves it.

A string is the object `terminated s` of its characters and a NUL.
`scanWhile_terminated` is `scanWhile_eq` for a walk that the NUL ends.

`reverseInPlace` is the loop that swaps bytes from both ends, and
`reverseInPlace_eq` says what it leaves.
-/

namespace CObject

variable {α : Type}

/-- The byte at offset `i`. -/
def load (o : List UInt8) (i : Int) : Option UInt8 := if 0 ≤ i then o[i.toNat]? else none

/-- The object behind a store at offset `i`. -/
def store (o : List UInt8) (i : Int) (c : UInt8) : Option (List UInt8) :=
  if 0 ≤ i ∧ i < o.length then some (o.set i.toNat c) else none

theorem load_natCast (o : List UInt8) (i : Nat) : load o i = o[i]? := by
  rw [load, if_pos (Int.natCast_nonneg i), Int.toNat_natCast]

theorem load_of_neg {o : List UInt8} {i : Int} (h : i < 0) : load o i = none :=
  if_neg (Int.not_le.2 h)

/-- The first byte of what lies at `i`. -/
theorem load_of_drop {o : List UInt8} {i : Nat} {c : UInt8} {rest : List UInt8}
    (h : o.drop i = c :: rest) : load o i = some c := by
  rw [load_natCast, ← List.head?_drop, h, List.head?_cons]

theorem drop_succ_of_drop {o : List UInt8} {i : Nat} {c : UInt8} {rest : List UInt8}
    (h : o.drop i = c :: rest) : o.drop (i + 1) = rest := by
  rw [← List.tail_drop, h, List.tail_cons]

theorem lt_length_of_drop {o : List UInt8} {i : Nat} {c : UInt8} {rest : List UInt8}
    (h : o.drop i = c :: rest) : i < o.length := by
  by_contra hge
  rw [List.drop_of_length_le (by omega)] at h
  cases h

/-! ## Walks -/

/-- `while (p(*s)) { a = f(a, *s); s++; }` with at most `fuel` tests. -/
def scanFuel (o : List UInt8) (p : UInt8 → Bool) (f : α → UInt8 → α) :
    Nat → Int → α → Option (Int × α)
  | 0, _, _ => none
  | fuel + 1, i, a => do
    let c ← load o i
    if p c then scanFuel o p f fuel (i + 1) (f a c) else some (i, a)

/-- `while (p(*s)) { a = f(a, *s); s++; }` from `s = i` on, with the last
pointer and the last accumulator as its answer.  A walk that takes more
rounds than the object has bytes has left it. -/
def scanWhile (o : List UInt8) (p : UInt8 → Bool) (f : α → UInt8 → α) (i : Int) (a : α) :
    Option (Int × α) :=
  scanFuel o p f (o.length + 1) i a

theorem scanFuel_eq {o : List UInt8} {p : UInt8 → Bool} (f : α → UInt8 → α) {w : List UInt8}
    {c : UInt8} {rest : List UInt8} {fuel i : Nat} (hw : ∀ d ∈ w, p d = true) (hc : p c = false)
    (hdrop : o.drop i = w ++ c :: rest) (hfuel : w.length < fuel) (a : α) :
    scanFuel o p f fuel i a = some (((i + w.length : Nat) : Int), w.foldl f a) := by
  induction w generalizing i fuel a with
  | nil =>
    obtain ⟨k, rfl⟩ : ∃ k, fuel = k + 1 := ⟨fuel - 1, by simp at hfuel; omega⟩
    rw [scanFuel, load_of_drop hdrop]
    simp [hc]
  | cons d w ih =>
    obtain ⟨k, rfl⟩ : ∃ k, fuel = k + 1 := ⟨fuel - 1, by omega⟩
    have hd : p d = true := hw d List.mem_cons_self
    have hrest : o.drop (i + 1) = w ++ c :: rest := drop_succ_of_drop hdrop
    have hwalk := ih (fun e he => hw e (List.mem_cons_of_mem d he)) hrest
      (by simpa using hfuel) (f a d)
    rw [scanFuel, load_of_drop hdrop]
    show (if p d = true then scanFuel o p f k ((i + 1 : Nat) : Int) (f a d) else _) = _
    rw [if_pos hd, hwalk, List.length_cons, List.foldl_cons, Nat.add_assoc, Nat.add_comm 1]

/-- A walk over the bytes `w` that stops at `c`. -/
theorem scanWhile_eq {o : List UInt8} {p : UInt8 → Bool} (f : α → UInt8 → α) {w : List UInt8}
    {c : UInt8} {rest : List UInt8} {i : Nat} (hw : ∀ d ∈ w, p d = true) (hc : p c = false)
    (hdrop : o.drop i = w ++ c :: rest) (a : α) :
    scanWhile o p f i a = some (((i + w.length : Nat) : Int), w.foldl f a) := by
  refine scanFuel_eq f hw hc hdrop ?_ a
  have hlen := congrArg List.length hdrop
  simp only [List.length_drop, List.length_append, List.length_cons] at hlen
  omega

/-! ## Strings -/

/-- The object of a string: its characters and a NUL. -/
def terminated (s : List UInt8) : List UInt8 := s ++ [0]

@[simp] theorem length_terminated (s : List UInt8) : (terminated s).length = s.length + 1 := by
  rw [terminated, List.length_append, List.length_singleton]

theorem drop_terminated {s : List UInt8} {i : Nat} (h : i ≤ s.length) :
    (terminated s).drop i = s.drop i ++ [0] :=
  List.drop_append_of_le_length h

theorem load_terminated {s : List UInt8} {i : Nat} (h : i ≤ s.length) :
    load (terminated s) i = some ((s.drop i).headD 0) := by
  have hdrop := drop_terminated h
  cases hs : s.drop i with
  | nil =>
    rw [hs] at hdrop
    exact load_of_drop hdrop
  | cons c rest =>
    rw [hs] at hdrop
    exact load_of_drop hdrop

/-- A read that has an answer is one of the string or its NUL. -/
theorem load_terminated_inv {s : List UInt8} {i : Int} {c : UInt8}
    (h : load (terminated s) i = some c) : ∃ j : Nat, i = j ∧ j ≤ s.length := by
  have hnonneg : 0 ≤ i := by
    by_contra hneg
    rw [load_of_neg (Int.not_le.1 hneg)] at h
    cases h
  rw [load, if_pos hnonneg] at h
  have hlt := (List.getElem?_eq_some_iff.1 h).1
  rw [length_terminated] at hlt
  exact ⟨i.toNat, (Int.toNat_of_nonneg hnonneg).symm, Nat.le_of_lt_succ hlt⟩

/-- A walk over a string that its NUL ends at the latest. -/
theorem scanWhile_terminated {s : List UInt8} {p : UInt8 → Bool} (f : α → UInt8 → α) {i : Nat}
    (hp : p 0 = false) (h : i ≤ s.length) (a : α) :
    scanWhile (terminated s) p f i a
      = some (((i + ((s.drop i).takeWhile p).length : Nat) : Int),
          ((s.drop i).takeWhile p).foldl f a) := by
  have hsplit := List.takeWhile_append_dropWhile (p := p) (l := s.drop i)
  have hwalk : ∀ d ∈ (s.drop i).takeWhile p, p d = true := fun d hd => List.mem_takeWhile_imp hd
  have hdrop := drop_terminated h
  rw [← hsplit, List.append_assoc] at hdrop
  cases hrest : (s.drop i).dropWhile p with
  | nil =>
    rw [hrest] at hdrop
    exact scanWhile_eq f hwalk hp hdrop a
  | cons c rest =>
    have hc : p c = false := by
      have hhead := List.head?_dropWhile_not p (s.drop i)
      rw [hrest] at hhead
      simpa using hhead
    rw [hrest] at hdrop
    exact scanWhile_eq f hwalk hc hdrop a

/-! ## Stores -/

/-- A store behind the bytes `w`. -/
theorem store_append (w : List UInt8) (d c : UInt8) (rest : List UInt8) :
    store (w ++ d :: rest) w.length c = some (w ++ c :: rest) := by
  have hlt : (w.length : Int) < (w ++ d :: rest).length := by
    rw [List.length_append, List.length_cons]
    omega
  rw [store, if_pos ⟨Int.natCast_nonneg _, hlt⟩, Int.toNat_natCast,
    List.set_append_right _ _ (Nat.le_refl _), Nat.sub_self, List.set_cons_zero]

theorem store_of_lt {o : List UInt8} {i : Nat} (h : i < o.length) (c : UInt8) :
    store o i c = some (o.set i c) := by
  rw [store, if_pos ⟨Int.natCast_nonneg i, Int.ofNat_lt.2 h⟩, Int.toNat_natCast]

/-- `tmp = o[i]; o[i] = o[j]; o[j] = tmp`. -/
def swap (o : List UInt8) (i j : Int) : Option (List UInt8) := do
  let tmp ← load o i
  let c ← load o j
  let o ← store o i c
  store o j tmp

/-- `for (i = 0; i < p / 2; ++i) swap(o[i], o[p - 1 - i])`. -/
def reverseInPlace (p : Nat) (o : List UInt8) : Option (List UInt8) :=
  (List.range (p / 2)).foldlM (fun o (i : Nat) => swap o i (p - 1 - i)) o

theorem swap_eq {o : List UInt8} {i j : Nat} {a b : UInt8} (hi : o[i]? = some a)
    (hj : o[j]? = some b) : swap o i j = some ((o.set i b).set j a) := by
  have hilt := (List.getElem?_eq_some_iff.1 hi).1
  have hjlt := (List.getElem?_eq_some_iff.1 hj).1
  unfold swap
  rw [load_natCast, load_natCast, hi, hj]
  show (store o i b).bind (fun o => store o j a) = _
  rw [store_of_lt hilt, Option.bind_some, store_of_lt (by rw [List.length_set]; exact hjlt)]

/-- The object behind `n` rounds of the reversal: the bytes at its two ends
are swapped. -/
theorem reverse_rounds (w rest : List UInt8) {n : Nat} (hn : n ≤ w.length / 2) :
    ∃ o, (List.range n).foldlM (fun o (i : Nat) => swap o i (w.length - 1 - i)) (w ++ rest) = some o ∧
      ∀ k, o[k]? = if k < w.length ∧ (k < n ∨ w.length ≤ k + n) then w[w.length - 1 - k]?
        else (w ++ rest)[k]? := by
  induction n with
  | zero =>
    refine ⟨w ++ rest, rfl, fun k => ?_⟩
    rw [if_neg (by omega)]
  | succ n ih =>
    obtain ⟨o, ho, hbytes⟩ := ih (by omega)
    have hlt : n < w.length := by omega
    have hlt' : w.length - 1 - n < w.length := by omega
    have hleft : o[n]? = some w[n] := by
      rw [hbytes, if_neg (by omega), List.getElem?_append_left hlt, List.getElem?_eq_getElem hlt]
    have hright : o[w.length - 1 - n]? = some w[w.length - 1 - n] := by
      rw [hbytes, if_neg (by omega), List.getElem?_append_left hlt', List.getElem?_eq_getElem hlt']
    have hn := (List.getElem?_eq_some_iff.1 hleft).1
    have hn' := (List.getElem?_eq_some_iff.1 hright).1
    have hcast : ((w.length : Int) - 1 - n) = ((w.length - 1 - n : Nat) : Int) := by omega
    refine ⟨(o.set n w[w.length - 1 - n]).set (w.length - 1 - n) w[n], ?_, fun k => ?_⟩
    · rw [List.range_succ, List.foldlM_append, ho]
      show (swap o n ((w.length : Int) - 1 - n)).bind some = _
      rw [hcast, swap_eq hleft hright, Option.bind_some]
    · rw [List.getElem?_set, List.getElem?_set, List.length_set, hbytes k]
      by_cases hk : w.length - 1 - n = k
      · rw [if_pos hk, if_pos hn', if_pos (by omega), show w.length - 1 - k = n by omega,
          List.getElem?_eq_getElem hlt]
      · rw [if_neg hk]
        by_cases hk' : n = k
        · rw [if_pos hk', if_pos hn, if_pos (by omega), ← hk', List.getElem?_eq_getElem hlt']
        · rw [if_neg hk']
          congr 1
          rw [eq_iff_iff]
          omega

/-- The bytes in front of `p` are reversed, the others stay. -/
theorem reverseInPlace_eq (w rest : List UInt8) :
    reverseInPlace w.length (w ++ rest) = some (w.reverse ++ rest) := by
  obtain ⟨o, ho, hbytes⟩ := reverse_rounds w rest (Nat.le_refl _)
  refine ho.trans (congrArg some (List.ext_getElem? fun k => ?_))
  rw [hbytes k]
  rcases Nat.lt_or_ge k w.length with hk | hk
  · have hk' : k < w.reverse.length := by rw [List.length_reverse]; exact hk
    rw [List.getElem?_append_left hk, List.getElem?_append_left hk', List.getElem?_reverse hk]
    -- the byte in the middle of an odd length is not moved
    split
    · rfl
    · rw [show w.length - 1 - k = k by omega]
  · have hk' : w.reverse.length ≤ k := by rw [List.length_reverse]; exact hk
    rw [if_neg (by omega), List.getElem?_append_right hk, List.getElem?_append_right hk',
      List.length_reverse]

end CObject

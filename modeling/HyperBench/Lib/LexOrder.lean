import Mathlib.Data.List.Lex

/-!
# Comparisons by the first difference

A comparison of two lists walks over both of them up to the first position at
which they differ, `n` positions at most, and answers the difference of the
two elements' keys.

* `firstDifference` is where the walk ends, and `compareBy` its answer.
* Lists that end in a terminator which they have nowhere else differ before
  one of them ends.  For these the sign of the answer is the lexicographic
  order by the keys (`compareBy_neg_iff`, `compareBy_eq_zero_iff`).
-/

namespace LexOrder

variable {α : Type}

/-- The elements at the first of the first `n` positions at which two lists
differ. -/
def firstDifference [DecidableEq α] : Nat → List α → List α → Option (α × α)
  | n + 1, x :: u, y :: v => if x = y then firstDifference n u v else some (x, y)
  | _, _, _ => none

/-- The difference of the keys of two elements. -/
def compareBy (key : α → Int) : Option (α × α) → Int
  | some (x, y) => key x - key y
  | none => 0

/-- The keys of the first `n` elements. -/
def keys (key : α → Int) (n : Nat) (u : List α) : List Int := (u.take n).map key

theorem keys_cons (key : α → Int) (n : Nat) (x : α) (u : List α) :
    keys key (n + 1) (x :: u) = key x :: keys key n u := rfl

/-- Lists with a terminator that agree to the end of one of them are equal. -/
theorem eq_of_take_eq {e : α} {s t : List α} (ht : e ∉ t) {n : Nat} (hn : s.length < n)
    (h : (s ++ [e]).take n = (t ++ [e]).take n) : s = t := by
  have hle : (s ++ [e]).length ≤ n := by
    rw [List.length_append, List.length_singleton]
    exact hn
  rw [List.take_of_length_le hle] at h
  rcases Nat.lt_or_ge t.length n with hlt | hge
  · have hle' : (t ++ [e]).length ≤ n := by
      rw [List.length_append, List.length_singleton]
      exact hlt
    rw [List.take_of_length_le hle'] at h
    exact List.append_cancel_right h
  · rw [List.take_append_of_le_length hge] at h
    have hmem : e ∈ t.take n := h ▸ List.mem_append_right s List.mem_cons_self
    exact absurd (List.mem_of_mem_take hmem) ht

variable [DecidableEq α]

theorem firstDifference_cons_self (n : Nat) (x : α) (u v : List α) :
    firstDifference (n + 1) (x :: u) (x :: v) = firstDifference n u v := if_pos rfl

theorem firstDifference_cons_ne {x y : α} (h : x ≠ y) (n : Nat) (u v : List α) :
    firstDifference (n + 1) (x :: u) (y :: v) = some (x, y) := if_neg h

theorem firstDifference_zero (u v : List α) : firstDifference 0 u v = none := by
  cases u <;> rfl

theorem firstDifference_nil (n : Nat) (v : List α) : firstDifference n [] v = none := by
  cases n <;> rfl

/-- Positions behind the end of one of the lists do not count. -/
theorem firstDifference_of_length_le {n : Nat} {u : List α} (hn : u.length ≤ n) (v : List α) :
    firstDifference n u v = firstDifference u.length u v := by
  induction u generalizing n v with
  | nil => rw [firstDifference_nil, firstDifference_nil]
  | cons x u ih =>
    obtain ⟨m, rfl⟩ : ∃ m, n = m + 1 := Nat.exists_eq_add_one.2 (Nat.zero_lt_of_lt hn)
    cases v with
    | nil => rfl
    | cons y v =>
      rw [List.length_cons, firstDifference, firstDifference, ih (Nat.le_of_succ_le_succ hn)]

/-- The first difference decides the lexicographic order. -/
theorem keys_of_firstDifference {key : α → Int} (hkey : Function.Injective key) {n : Nat}
    {u v : List α} {x y : α} (h : firstDifference n u v = some (x, y)) :
    x ≠ y ∧ keys key n u ≠ keys key n v ∧ (keys key n u < keys key n v ↔ key x < key y) := by
  induction n generalizing u v with
  | zero => rw [firstDifference_zero] at h; cases h
  | succ n ih =>
    cases u with
    | nil => cases h
    | cons a u =>
      cases v with
      | nil => cases h
      | cons b v =>
        rw [keys_cons, keys_cons, List.cons_lt_cons_iff, Ne.eq_def (_ :: _), List.cons.injEq]
        by_cases hab : a = b
        · subst hab
          rw [firstDifference_cons_self] at h
          obtain ⟨hne, hkeys, hlt⟩ := ih h
          refine ⟨hne, fun heq => hkeys heq.2, ?_⟩
          rw [← hlt, or_iff_right (Int.lt_irrefl _), and_iff_right rfl]
        · rw [firstDifference_cons_ne hab] at h
          obtain ⟨rfl, rfl⟩ := Prod.mk.inj (Option.some.inj h)
          have hne : ¬ key a = key b := fun heq => hab (hkey heq)
          refine ⟨hab, fun heq => hne heq.1, or_iff_left fun heq => hne heq.1⟩

/-- A walk that ends before the lists do has met no difference exactly when
they start alike. -/
theorem firstDifference_eq_none_iff {n : Nat} {u v : List α} (hu : n ≤ u.length)
    (hv : n ≤ v.length) : firstDifference n u v = none ↔ u.take n = v.take n := by
  induction n generalizing u v with
  | zero => exact iff_of_true (firstDifference_zero u v) rfl
  | succ n ih =>
    obtain ⟨a, u, rfl⟩ := List.exists_cons_of_length_pos (Nat.zero_lt_of_lt hu)
    obtain ⟨b, v, rfl⟩ := List.exists_cons_of_length_pos (Nat.zero_lt_of_lt hv)
    rw [List.take_succ_cons, List.take_succ_cons, List.cons.injEq]
    by_cases hab : a = b
    · subst hab
      rw [firstDifference_cons_self, and_iff_right rfl]
      exact ih (Nat.le_of_succ_le_succ hu) (Nat.le_of_succ_le_succ hv)
    · rw [firstDifference_cons_ne hab]
      exact iff_of_false (fun h => by cases h) fun h => hab h.1

/-- An answer of 0 is one without a difference. -/
theorem compareBy_eq_zero {key : α → Int} (hkey : Function.Injective key) {n : Nat}
    {u v : List α} :
    compareBy key (firstDifference n u v) = 0 ↔ firstDifference n u v = none := by
  cases h : firstDifference n u v with
  | none => exact iff_of_true rfl rfl
  | some d =>
    refine iff_of_false (fun hzero => ?_) (fun hnone => by cases hnone)
    exact (keys_of_firstDifference hkey h).1 (hkey (Int.sub_eq_zero.1 hzero))

/-! ## Lists with a terminator -/

variable {e : α} {s t : List α}

/-- Without a difference the lists agree as far as they were compared. -/
theorem take_eq_of_firstDifference (hs : e ∉ s) (ht : e ∉ t) {n : Nat}
    (h : firstDifference n (s ++ [e]) (t ++ [e]) = none) :
    (s ++ [e]).take n = (t ++ [e]).take n := by
  induction n generalizing s t with
  | zero => rfl
  | succ n ih =>
    cases s with
    | nil =>
      cases t with
      | nil => rfl
      | cons d t =>
        have hd : e ≠ d := fun heq => ht (heq ▸ List.mem_cons_self)
        rw [List.nil_append, List.cons_append, firstDifference_cons_ne hd] at h
        cases h
    | cons c s =>
      cases t with
      | nil =>
        have hc : c ≠ e := fun heq => hs (heq ▸ List.mem_cons_self)
        rw [List.nil_append, List.cons_append, firstDifference_cons_ne hc] at h
        cases h
      | cons d t =>
        by_cases hcd : c = d
        · subst hcd
          rw [List.cons_append, List.cons_append, firstDifference_cons_self] at h
          have hrest := ih (fun hmem => hs (List.mem_cons_of_mem c hmem))
            (fun hmem => ht (List.mem_cons_of_mem c hmem)) h
          rw [List.cons_append, List.cons_append, List.take_succ_cons, List.take_succ_cons, hrest]
        · rw [List.cons_append, List.cons_append, firstDifference_cons_ne hcd] at h
          cases h

theorem compareBy_neg_iff {key : α → Int} (hkey : Function.Injective key) (hs : e ∉ s)
    (ht : e ∉ t) (n : Nat) :
    compareBy key (firstDifference n (s ++ [e]) (t ++ [e])) < 0
      ↔ keys key n (s ++ [e]) < keys key n (t ++ [e]) := by
  cases h : firstDifference n (s ++ [e]) (t ++ [e]) with
  | none =>
    rw [keys, keys, take_eq_of_firstDifference hs ht h]
    exact iff_of_false (Int.lt_irrefl 0) (List.lt_irrefl _)
  | some d =>
    rw [(keys_of_firstDifference hkey h).2.2]
    exact ⟨Int.lt_of_sub_neg, Int.sub_neg_of_lt⟩

theorem compareBy_eq_zero_iff {key : α → Int} (hkey : Function.Injective key) (hs : e ∉ s)
    (ht : e ∉ t) (n : Nat) :
    compareBy key (firstDifference n (s ++ [e]) (t ++ [e])) = 0
      ↔ keys key n (s ++ [e]) = keys key n (t ++ [e]) := by
  rw [compareBy_eq_zero hkey]
  cases h : firstDifference n (s ++ [e]) (t ++ [e]) with
  | none =>
    rw [keys, keys, take_eq_of_firstDifference hs ht h]
    exact iff_of_true rfl rfl
  | some d => exact iff_of_false (fun hnone => by cases hnone) (keys_of_firstDifference hkey h).2.1

end LexOrder

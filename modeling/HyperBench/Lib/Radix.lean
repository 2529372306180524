import Mathlib.Data.Finset.Prod
import Mathlib.Order.Interval.Finset.Nat
import Mathlib.Tactic.ByContra
import Mathlib.Tactic.TypeStar

/-!
# Radix trees over a supply of nodes

A map from numbers to values, kept as a tree of fixed depth `d` and fan-out
`b`.  The node of level `l` on the path to the key `v` has the number
`v / b ^ l`, and the values stand at level 0.  New nodes come from a list,
the supply, and `none` means that the supply ran out.

`insert` makes the nodes that are missing on the path, from the top down,
and then sets the value.  `insert_value` and `insert_supply` are its
specification: exactly one value changes, and every new node is taken from
the front of the supply.

`missing` and `absent` count the nodes that one key and several keys need and
the tree does not have.
-/

namespace Radix

variable {α : Type*}

/-- The node or value of each level and number. -/
abbrev RadixTree (α : Type*) := Nat → Nat → Option α

def RadixTree.empty : RadixTree α := fun _ _ => none

def RadixTree.set (T : RadixTree α) (level k : Nat) (p : α) : RadixTree α :=
  fun l j => if l = level ∧ j = k then some p else T l j

/-- `p` is a node of the tree.  The values are not nodes. -/
def RadixTree.IsNode (T : RadixTree α) (p : α) : Prop := ∃ level k, T (level + 1) k = some p

@[simp] theorem RadixTree.empty_apply (level k : Nat) :
    (RadixTree.empty : RadixTree α) level k = none := rfl

@[simp] theorem RadixTree.set_same (T : RadixTree α) (level k : Nat) (p : α) :
    T.set level k p level k = some p := by
  simp [RadixTree.set]

theorem RadixTree.set_of_ne {T : RadixTree α} {level k l j : Nat} {p : α} (h : ¬ (l = level ∧ j = k)) :
    T.set level k p l j = T l j := by
  simp [RadixTree.set, h]

theorem RadixTree.set_isSome {T : RadixTree α} {l j : Nat} (level k : Nat) (p : α) (h : T l j ≠ none) :
    T.set level k p l j ≠ none := by
  by_cases hlj : l = level ∧ j = k
  · simp [RadixTree.set, hlj]
  · rw [RadixTree.set_of_ne hlj]
    exact h

/-- An element of the new tree is the new one or an old one. -/
theorem RadixTree.set_eq_some {T : RadixTree α} {level k l j : Nat} {p q : α}
    (h : T.set level k q l j = some p) :
    (l = level ∧ j = k ∧ p = q) ∨ (¬ (l = level ∧ j = k) ∧ T l j = some p) := by
  by_cases hlj : l = level ∧ j = k
  · rw [hlj.1, hlj.2, RadixTree.set_same, Option.some.injEq] at h
    exact Or.inl ⟨hlj.1, hlj.2, h.symm⟩
  · rw [RadixTree.set_of_ne hlj] at h
    exact Or.inr ⟨hlj, h⟩

theorem RadixTree.IsNode.of_set {T : RadixTree α} {level k : Nat} {p q : α}
    (h : (T.set level k q).IsNode p) : T.IsNode p ∨ p = q := by
  obtain ⟨l, j, hp⟩ := h
  rcases RadixTree.set_eq_some hp with ⟨_, _, hpq⟩ | ⟨_, hp⟩
  · exact Or.inr hpq
  · exact Or.inl ⟨l, j, hp⟩

theorem RadixTree.not_isNode_empty (p : α) : ¬ (RadixTree.empty : RadixTree α).IsNode p := by
  intro h
  obtain ⟨_, _, hp⟩ := h
  cases hp

/-- A tree and the nodes that are still free. -/
abbrev Store (α : Type*) := RadixTree α × List α

/-- Make sure that a node exists. -/
def node (level k : Nat) (st : Store α) : Option (Store α) :=
  match st.1 level k, st.2 with
  | some _, _ => some st
  | none, [] => none
  | none, p :: ps => some (st.1.set level k p, ps)

/-- The first `i` nodes on the path to `v`, from the top down. -/
def path (b d v : Nat) : Nat → Store α → Option (Store α)
  | 0, st => some st
  | i + 1, st => (path b d v i st).bind (node (d - 1 - i) (v / b ^ (d - 1 - i)))

def insert (b d v : Nat) (f : α) (st : Store α) : Option (Store α) :=
  (path b d v (d - 1) st).map fun st => (st.1.set 0 v f, st.2)

/-- The two ways in which `node` succeeds. -/
theorem node_cases {level k : Nat} {T T' : RadixTree α} {ps ps' : List α}
    (h : node level k (T, ps) = some (T', ps')) :
    (∃ p, T level k = some p ∧ T' = T ∧ ps' = ps) ∨
      ∃ p, T level k = none ∧ ps = p :: ps' ∧ T' = T.set level k p := by
  unfold node at h
  split at h
  · rename_i p heq
    simp only [Option.some.injEq, Prod.mk.injEq] at h
    exact Or.inl ⟨p, heq, h.1.symm, h.2.symm⟩
  · simp at h
  · rename_i p ps₀ heq hps
    simp only [Option.some.injEq, Prod.mk.injEq] at h
    rcases h with ⟨rfl, rfl⟩
    exact Or.inr ⟨p, heq, hps, rfl⟩

theorem node_of_some {level k : Nat} {T : RadixTree α} {p : α} (h : T level k = some p) (ps : List α) :
    node level k (T, ps) = some (T, ps) := by
  simp [node, h]

theorem node_of_none {level k : Nat} {T : RadixTree α} (h : T level k = none) (p : α) (ps : List α) :
    node level k (T, p :: ps) = some (T.set level k p, ps) := by
  simp [node, h]

theorem node_of_nil {level k : Nat} {T : RadixTree α} (h : T level k = none) :
    node level k (T, ([] : List α)) = none := by
  simp [node, h]

/-- `st'` has the values of `st`, and its further nodes come from the front
of the supply of `st`. -/
structure Extends (st st' : Store α) : Prop where
  values : st'.1 0 = st.1 0
  supply : ∃ taken, st.2 = taken ++ st'.2 ∧ ∀ p, st'.1.IsNode p → st.1.IsNode p ∨ p ∈ taken

theorem Extends.refl (st : Store α) : Extends st st :=
  ⟨rfl, [], rfl, fun _ hp => Or.inl hp⟩

theorem Extends.trans {st st' st'' : Store α} (h : Extends st st') (h' : Extends st' st'') :
    Extends st st'' := by
  rcases h.supply with ⟨taken, hps, hnode⟩
  rcases h'.supply with ⟨taken', hps', hnode'⟩
  refine ⟨h'.values.trans h.values, taken ++ taken', ?_, ?_⟩
  · rw [hps, hps', List.append_assoc]
  · intro p hp
    rcases hnode' p hp with hp | hp
    · rcases hnode p hp with hp | hp
      · exact Or.inl hp
      · exact Or.inr (List.mem_append_left taken' hp)
    · exact Or.inr (List.mem_append_right taken hp)

theorem node_extends {level k : Nat} (hlevel : 0 < level) {st st' : Store α}
    (h : node level k st = some st') : Extends st st' := by
  rcases node_cases h with ⟨p, _, hT, hps⟩ | ⟨p, _, hps, hT⟩
  · rw [show st' = st from Prod.ext hT hps]
    exact Extends.refl st
  · refine ⟨?_, [p], hps, ?_⟩
    · rw [hT]
      funext j
      exact RadixTree.set_of_ne (by omega)
    · intro q hq
      rw [hT] at hq
      exact hq.of_set.imp_right fun hqp => List.mem_singleton.2 hqp

theorem path_extends {b d v i : Nat} (hi : i < d) {st st' : Store α}
    (h : path b d v i st = some st') : Extends st st' := by
  induction i generalizing st' with
  | zero =>
    rw [path, Option.some.injEq] at h
    rw [← h]
    exact Extends.refl st
  | succ i ih =>
    rw [path, Option.bind_eq_some_iff] at h
    rcases h with ⟨mid, hmid, hnode⟩
    exact (ih (by omega) hmid).trans (node_extends (by omega) hnode)

/-- The elements of the tree stay. -/
theorem node_keeps {level k : Nat} {st st' : Store α} (h : node level k st = some st') {l j : Nat}
    {p : α} (hp : st.1 l j = some p) : st'.1 l j = some p := by
  rcases node_cases h with ⟨_, _, hT, _⟩ | ⟨_, hnone, _, hT⟩
  · rw [hT]
    exact hp
  · have hne : ¬ (l = level ∧ j = k) := by
      rintro ⟨rfl, rfl⟩
      rw [hnone] at hp
      cases hp
    rw [hT, RadixTree.set_of_ne hne]
    exact hp

/-- `insert` changes the value of its key only. -/
theorem insert_value {b d v : Nat} (hd : 0 < d) {f : α} {st st' : Store α}
    (h : insert b d v f st = some st') (w : Nat) :
    st'.1 0 w = if w = v then some f else st.1 0 w := by
  rw [insert, Option.map_eq_some_iff] at h
  rcases h with ⟨mid, hmid, rfl⟩
  show mid.1.set 0 v f 0 w = _
  by_cases hw : w = v
  · simp [hw]
  · rw [RadixTree.set_of_ne (fun hc => hw hc.2), if_neg hw, (path_extends (by omega) hmid).values]

/-- `insert` takes its nodes from the front of the supply. -/
theorem insert_supply {b d v : Nat} (hd : 0 < d) {f : α} {st st' : Store α}
    (h : insert b d v f st = some st') :
    ∃ taken, st.2 = taken ++ st'.2 ∧ ∀ p, st'.1.IsNode p → st.1.IsNode p ∨ p ∈ taken := by
  rw [insert, Option.map_eq_some_iff] at h
  rcases h with ⟨mid, hmid, rfl⟩
  rcases (path_extends (by omega) hmid).supply with ⟨taken, hps, hnode⟩
  refine ⟨taken, hps, fun p hp => hnode p ?_⟩
  rcases hp with ⟨l, j, hp⟩
  refine ⟨l, j, ?_⟩
  have hset : mid.1.set 0 v f (l + 1) j = mid.1 (l + 1) j := RadixTree.set_of_ne (by omega)
  exact hset ▸ hp

/-! ## How many nodes an insertion takes -/

/-- The number of nodes that are missing among the first `i` on the path to
`v`. -/
def missing (b d v : Nat) (T : RadixTree α) : Nat → Nat
  | 0 => 0
  | i + 1 => missing b d v T i + if (T (d - 1 - i) (v / b ^ (d - 1 - i))).isNone then 1 else 0

/-- No node of the path is there. -/
theorem missing_of_none {b d v i : Nat} {T : RadixTree α}
    (h : ∀ l, d - 1 - i < l → l ≤ d - 1 → T l (v / b ^ l) = none) (hi : i < d) :
    missing b d v T i = i := by
  induction i with
  | zero => rfl
  | succ i ih =>
    rw [missing, ih (fun l hl hl' => h l (by omega) hl') (by omega), h _ (by omega) (by omega)]
    rfl

/-- Every node of the path is there. -/
theorem missing_of_some {b d v i : Nat} {T : RadixTree α}
    (h : ∀ l, d - 1 - i < l → l ≤ d - 1 → T l (v / b ^ l) ≠ none) (hi : i < d) :
    missing b d v T i = 0 := by
  induction i with
  | zero => rfl
  | succ i ih =>
    rw [missing, ih (fun l hl hl' => h l (by omega) hl') (by omega), if_neg]
    rw [Option.isNone_iff_eq_none]
    exact h _ (by omega) (by omega)

/-- The path takes exactly the nodes that are missing. -/
theorem path_exact {b d v i : Nat} (hi : i < d) {T : RadixTree α} {ps : List α}
    (hps : missing b d v T i ≤ ps.length) :
    ∃ T', path b d v i (T, ps) = some (T', ps.drop (missing b d v T i)) ∧
      (∀ l, l ≤ d - 1 - i → T' l = T l) ∧
      ∀ l k, T' l k ≠ none ↔ T l k ≠ none ∨ d - 1 - i < l ∧ l ≤ d - 1 ∧ k = v / b ^ l := by
  induction i with
  | zero =>
    refine ⟨T, rfl, fun _ _ => rfl, fun l k => ⟨Or.inl, ?_⟩⟩
    rintro (h | h)
    · exact h
    · omega
  | succ i ih =>
    rw [missing] at hps ⊢
    rcases ih (by omega) (by omega) with ⟨T', hpath, hsame, hnode⟩
    have hlevel : T' (d - 1 - i) = T (d - 1 - i) := hsame _ (Nat.le_refl _)
    rw [path, hpath, Option.bind_some]
    cases hq : T (d - 1 - i) (v / b ^ (d - 1 - i)) with
    | some q =>
      refine ⟨T', ?_, fun l hl => hsame l (by omega), fun l k => ?_⟩
      · exact node_of_some (by rw [hlevel, hq]) _
      · rw [hnode l k]
        constructor
        · rintro (h | h)
          · exact Or.inl h
          · exact Or.inr ⟨by omega, h.2⟩
        · rintro (h | ⟨hl, hl', rfl⟩)
          · exact Or.inl h
          · by_cases heq : l = d - 1 - i
            · refine Or.inl ?_
              rw [heq, hq]
              simp
            · exact Or.inr ⟨by omega, hl', rfl⟩
    | none =>
      rw [hq] at hps
      have hlt : missing b d v T i < ps.length := hps
      refine ⟨T'.set (d - 1 - i) (v / b ^ (d - 1 - i)) ps[missing b d v T i], ?_, ?_, ?_⟩
      · rw [List.drop_eq_getElem_cons hlt, node_of_none (by rw [hlevel, hq])]
        rfl
      · intro l hl
        funext k
        rw [RadixTree.set_of_ne (by omega), hsame l (by omega)]
      · intro l k
        by_cases heq : l = d - 1 - i ∧ k = v / b ^ (d - 1 - i)
        · rcases heq with ⟨rfl, rfl⟩
          rw [RadixTree.set_same]
          exact ⟨fun _ => Or.inr ⟨by omega, by omega, rfl⟩, fun _ => by simp⟩
        · rw [RadixTree.set_of_ne heq, hnode l k]
          constructor
          · rintro (h | h)
            · exact Or.inl h
            · exact Or.inr ⟨by omega, h.2⟩
          · rintro (h | ⟨hl, hl', rfl⟩)
            · exact Or.inl h
            · have hll : l ≠ d - 1 - i := fun hll => heq ⟨hll, by rw [hll]⟩
              exact Or.inr ⟨by omega, hl', rfl⟩

/-- A path for which the supply does not suffice. -/
theorem path_eq_none {b d v i : Nat} (hi : i < d) {T : RadixTree α} {ps : List α}
    (hps : ps.length < missing b d v T i) : path b d v i (T, ps) = none := by
  induction i with
  | zero => exact absurd hps (Nat.not_lt_zero _)
  | succ i ih =>
    rw [missing] at hps
    rw [path]
    by_cases hlt : ps.length < missing b d v T i
    · rw [ih (by omega) hlt]
      rfl
    · obtain ⟨T', hpath, hsame, _⟩ := path_exact (v := v) (by omega : i < d) (Nat.le_of_not_lt hlt)
      have hnone : T (d - 1 - i) (v / b ^ (d - 1 - i)) = none := by
        by_contra hne
        rw [← Option.isNone_iff_eq_none] at hne
        rw [if_neg hne] at hps
        omega
      have hdrop : ps.drop (missing b d v T i) = [] := by
        apply List.drop_eq_nil_of_le
        split at hps <;> omega
      have hnone' : T' (d - 1 - i) (v / b ^ (d - 1 - i)) = none := by
        rw [hsame _ (Nat.le_refl _), hnone]
      rw [hpath, hdrop, Option.bind_some]
      simp only [node, hnone']

/-- `insert` takes exactly the nodes that are missing, and makes the path. -/
theorem insert_exact {b d v : Nat} (hd : 0 < d) (f : α) {T : RadixTree α} {ps : List α}
    (hps : missing b d v T (d - 1) ≤ ps.length) :
    ∃ T', insert b d v f (T, ps) = some (T', ps.drop (missing b d v T (d - 1))) ∧
      (∀ l k, 0 < l → (T' l k ≠ none ↔ T l k ≠ none ∨ l < d ∧ k = v / b ^ l)) ∧
      ∀ p, T'.IsNode p → T.IsNode p ∨ p ∈ ps.take (missing b d v T (d - 1)) := by
  rcases path_exact (by omega) hps with ⟨T', hpath, _, hnode⟩
  have hins : insert b d v f (T, ps)
      = some (T'.set 0 v f, ps.drop (missing b d v T (d - 1))) := by
    rw [insert, hpath]
    rfl
  refine ⟨T'.set 0 v f, hins, fun l k hl => ?_, fun p hp => ?_⟩
  · rw [RadixTree.set_of_ne (by omega), hnode l k]
    exact or_congr_right ⟨fun h => ⟨by omega, h.2.2⟩, fun h => ⟨by omega, by omega, h.2⟩⟩
  · rcases insert_supply hd hins with ⟨taken, htaken, hnew⟩
    refine (hnew p hp).imp_right fun hp => ?_
    have hsplit : ps.take (missing b d v T (d - 1)) ++ ps.drop (missing b d v T (d - 1))
        = taken ++ ps.drop (missing b d v T (d - 1)) := (List.take_append_drop _ ps).trans htaken
    rw [List.append_cancel_right hsplit]
    exact hp

/-! ## How many nodes several insertions take -/

/-- The level and number of each node above the keys. -/
def above (b d : Nat) (vs : List Nat) : Finset (Nat × Nat) :=
  (vs.toFinset ×ˢ Finset.Ico 1 d).image fun x => (x.2, x.1 / b ^ x.2)

theorem mem_above {b d : Nat} {vs : List Nat} {l k : Nat} :
    (l, k) ∈ above b d vs ↔ 0 < l ∧ l < d ∧ ∃ v ∈ vs, k = v / b ^ l := by
  simp only [above, Finset.mem_image, Finset.mem_product, List.mem_toFinset, Finset.mem_Ico,
    Prod.exists, Prod.mk.injEq]
  constructor
  · intro h
    obtain ⟨v, l', ⟨hv, hl, hl'⟩, rfl, rfl⟩ := h
    exact ⟨hl, hl', v, hv, rfl⟩
  · intro h
    obtain ⟨hl, hl', v, hv, rfl⟩ := h
    exact ⟨v, l, ⟨hv, hl, hl'⟩, rfl, rfl⟩

/-- The number of nodes above the keys that the tree does not have. -/
def absent (b d : Nat) (T : RadixTree α) (vs : List Nat) : Nat :=
  ((above b d vs).filter fun x => (T x.1 x.2).isNone).card

/-- Only the levels of the nodes count. -/
theorem absent_congr {b d : Nat} {T T' : RadixTree α} (h : ∀ l, 0 < l → l < d → T l = T' l)
    (vs : List Nat) : absent b d T vs = absent b d T' vs := by
  unfold absent
  congr 1
  apply Finset.filter_congr
  intro x hx
  obtain ⟨hl, hl', _⟩ := mem_above.1 hx
  rw [h x.1 hl hl']

theorem absent_mono (b d : Nat) (T : RadixTree α) (vs ws : List Nat) :
    absent b d T vs ≤ absent b d T (vs ++ ws) := by
  apply Finset.card_le_card
  apply Finset.filter_subset_filter
  intro x hx
  obtain ⟨hl, hl', v, hv, hk⟩ := mem_above.1 hx
  exact mem_above.2 ⟨hl, hl', v, List.mem_append_left ws hv, hk⟩

/-- The further keys count in the tree that has the nodes of the first
ones. -/
theorem absent_append {b d : Nat} {T T' : RadixTree α} {vs : List Nat}
    (hnode : ∀ l k, 0 < l → (T' l k ≠ none ↔ T l k ≠ none ∨ (l, k) ∈ above b d vs))
    (ws : List Nat) : absent b d T (vs ++ ws) = absent b d T vs + absent b d T' ws := by
  unfold absent
  rw [← Finset.card_union_of_disjoint]
  · congr 1
    ext ⟨l, k⟩
    have hiff := hnode l k
    simp only [Finset.mem_filter, Finset.mem_union, mem_above, List.mem_append,
      Option.isNone_iff_eq_none] at hiff ⊢
    grind
  · rw [Finset.disjoint_left]
    intro x hx hx'
    obtain ⟨l, k⟩ := x
    simp only [Finset.mem_filter, Option.isNone_iff_eq_none] at hx hx'
    have hpos := (mem_above.1 hx.1).1
    exact (hnode l k hpos).2 (Or.inr hx.1) hx'.2

theorem missing_eq_card {b d v i : Nat} (T : RadixTree α) (hi : i < d) :
    missing b d v T i = ((Finset.Ico (d - i) d).filter fun l => (T l (v / b ^ l)).isNone).card := by
  induction i with
  | zero => simp [missing]
  | succ i ih =>
    have hlevels : Finset.Ico (d - (i + 1)) d = Insert.insert (d - 1 - i) (Finset.Ico (d - i) d) := by
      ext l
      simp only [Finset.mem_Ico, Finset.mem_insert]
      omega
    rw [missing, ih (by omega), hlevels, Finset.filter_insert]
    split
    · rw [Finset.card_insert_of_notMem]
      simp only [Finset.mem_filter, Finset.mem_Ico]
      omega
    · rfl

/-- For one key these are the missing nodes of its path. -/
theorem absent_singleton {b d : Nat} (hd : 0 < d) (T : RadixTree α) (v : Nat) :
    absent b d T [v] = missing b d v T (d - 1) := by
  rw [missing_eq_card T (by omega), show d - (d - 1) = 1 by omega]
  have habove : above b d [v] = (Finset.Ico 1 d).image fun l => (l, v / b ^ l) := by
    ext ⟨l, k⟩
    simp only [mem_above, List.mem_singleton, exists_eq_left, Finset.mem_image, Finset.mem_Ico,
      Prod.mk.injEq]
    grind
  rw [absent, habove, Finset.filter_image, Finset.card_image_of_injOn]
  intro l _ l' _ h
  exact congrArg Prod.fst h

/-! ## The keys in order -/

/-- The nodes above the keys below `n`, and no others. -/
def Filled (b d n : Nat) (T : RadixTree α) : Prop :=
  ∀ l k, 0 < l → l < d → (T l k ≠ none ↔ k * b ^ l < n)

/-- The number of nodes on the first `i` levels above the keys below `n`. -/
def need (b d n : Nat) : Nat → Nat
  | 0 => 0
  | i + 1 => need b d n i + (n + b ^ (d - 1 - i) - 1) / b ^ (d - 1 - i)

theorem need_mono {b d n n' i : Nat} (h : n ≤ n') : need b d n i ≤ need b d n' i := by
  induction i with
  | zero => exact Nat.le_refl 0
  | succ i ih => exact Nat.add_le_add ih (Nat.div_le_div_right (by omega))

/-- One more key needs one more block exactly at a multiple of the size. -/
theorem ceil_succ {m : Nat} (hm : 0 < m) (n : Nat) :
    (n + 1 + m - 1) / m = (n + m - 1) / m + if m ∣ n then 1 else 0 := by
  have hsucc : n + 1 + m - 1 = (n + m - 1) + 1 := by omega
  have hsum : n + m - 1 + 1 = n + m := by omega
  have hdvd : m ∣ n + m ↔ m ∣ n := Nat.dvd_add_left (Nat.dvd_refl m)
  rw [hsucc, Nat.succ_div, hsum]
  simp only [hdvd]

theorem Filled.isNone {b d n l : Nat} {T : RadixTree α} (h : Filled b d n T) (hl : 0 < l) (hd : l < d) :
    (T l (n / b ^ l)).isNone = true ↔ b ^ l ∣ n := by
  have hnode := h l (n / b ^ l) hl hd
  have hle := Nat.div_mul_le_self n (b ^ l)
  rw [Option.isNone_iff_eq_none, Nat.dvd_iff_div_mul_eq]
  constructor
  · intro hnone
    have hnot : ¬ n / b ^ l * b ^ l < n := fun hlt => hnode.2 hlt hnone
    omega
  · intro heq
    by_contra hne
    have := hnode.1 hne
    omega

/-- The next key takes what the count says. -/
theorem Filled.need_succ {b d n i : Nat} {T : RadixTree α} (h : Filled b d n T) (hb : 0 < b)
    (hi : i < d) : need b d (n + 1) i = need b d n i + missing b d n T i := by
  induction i with
  | zero => rfl
  | succ i ih =>
    have hpos : 0 < b ^ (d - 1 - i) := Nat.pow_pos hb
    have hiff := h.isNone (l := d - 1 - i) (by omega) (by omega)
    rw [need, need, missing, ih (by omega), ceil_succ hpos]
    by_cases hdvd : b ^ (d - 1 - i) ∣ n
    · rw [if_pos hdvd, if_pos (hiff.2 hdvd)]
      omega
    · rw [if_neg hdvd, if_neg fun hnone => hdvd (hiff.1 hnone)]
      omega

theorem Filled.insert {b d n : Nat} {T T' : RadixTree α} (h : Filled b d n T) (hb : 0 < b)
    (hnode : ∀ l k, 0 < l → (T' l k ≠ none ↔ T l k ≠ none ∨ l < d ∧ k = n / b ^ l)) :
    Filled b d (n + 1) T' := by
  intro l k hl hd
  have hpos : 0 < b ^ l := Nat.pow_pos hb
  rw [hnode l k hl, h l k hl hd, Nat.lt_succ_iff]
  constructor
  · rintro (hlt | ⟨_, rfl⟩)
    · exact Nat.le_of_lt hlt
    · exact Nat.div_mul_le_self n _
  · intro hle
    rcases Nat.lt_or_eq_of_le hle with hlt | heq
    · exact Or.inl hlt
    · refine Or.inr ⟨hd, ?_⟩
      rw [← heq, Nat.mul_div_cancel _ hpos]

end Radix

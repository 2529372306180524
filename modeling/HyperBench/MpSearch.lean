import HyperBench.Mp

/-!
# The search for the floating pointer structure

The comment of `mpsearch` lists three areas: the first kilobyte of the EBDA or
the last one of base memory, and the BIOS ROM from `0xe0000` on.  The code
looks into the upper half of the last one only.  `Located m r` says that `r`
is what the comment promises, and `mpsearch_located_iff` for which memories
the code finds it.

* `mpsearch1_found`: the scan of one area finds its lowest structure.
* `mpsearch_inside`: no size of base memory makes the search read outside the
  areas.
-/

namespace HyperBench.Mp

open ByteMem Reads Ascii

/-! ## One area -/

/-- Memory holds a floating pointer structure at `p`. -/
def MpAt (m : Mem) (p : Nat) : Prop := Holds m p (ascii "_MP_") ∧ byteSum m p sizeofMp % 256 = 0

theorem isMp_val {m : Mem} {p : Nat} : (isMp p).val m = true ↔ MpAt m p := by
  rw [isMp, val_bind, val_ite, MpAt]
  by_cases hsig : Holds m p (ascii "_MP_")
  · rw [if_pos (memcmp_val_eq_zero_iff.2 hsig), val_bind, val_pure, beq_iff_eq, sum_val_eq_zero_iff]
    exact ⟨fun h => ⟨hsig, h⟩, And.right⟩
  · rw [if_neg fun h => hsig (memcmp_val_eq_zero_iff.1 h), val_pure]
    exact ⟨fun h => absurd h Bool.false_ne_true, fun h => absurd h.1 hsig⟩

/-- The loop of `mpsearch1` stops at the first structure. -/
theorem mpsearchFrom_cases (m : Mem) (p n : Nat) :
    (∀ i, i < n → ¬ MpAt m (p + 16 * i)) ∧ (mpsearchFrom p n).val m = 0 ∨
      ∃ i, i < n ∧ MpAt m (p + 16 * i) ∧ (∀ j, j < i → ¬ MpAt m (p + 16 * j)) ∧
        (mpsearchFrom p n).val m = p + 16 * i := by
  induction n generalizing p with
  | zero => exact Or.inl ⟨fun i hi => absurd hi (Nat.not_lt_zero i), rfl⟩
  | succ n ih =>
    rw [mpsearchFrom, val_bind, val_ite]
    by_cases hfound : MpAt m p
    · rw [if_pos (isMp_val.2 hfound)]
      exact Or.inr ⟨0, Nat.succ_pos n, hfound, fun j hj => absurd hj (Nat.not_lt_zero j), rfl⟩
    · rw [if_neg fun h => hfound (isMp_val.1 h)]
      have hshift : ∀ i, p + sizeofMp + 16 * i = p + 16 * (i + 1) := by
        intro i
        unfold sizeofMp
        omega
      have hrest := ih (p + sizeofMp)
      simp only [hshift] at hrest
      have hskip : ∀ {k}, (∀ i, i < k → ¬ MpAt m (p + 16 * (i + 1))) →
          ∀ i, i < k + 1 → ¬ MpAt m (p + 16 * i) := by
        intro k hk i hi
        cases i with
        | zero => exact hfound
        | succ i => exact hk i (by omega)
      rcases hrest with ⟨hnone, hval⟩ | ⟨i, hi, hat, hbefore, hval⟩
      · exact Or.inl ⟨hskip hnone, hval⟩
      · exact Or.inr ⟨i + 1, by omega, hat, hskip hbefore, hval⟩

/-- A range of memory that is searched. -/
structure Area where
  base : Nat
  len : Nat

namespace Area

/-- The places for a structure are 16 bytes apart. -/
def Has (A : Area) (p : Nat) : Prop := p % 16 = 0 ∧ A.base ≤ p ∧ p < A.base + A.len

def Covers (A : Area) (x : Nat) : Prop := A.base ≤ x ∧ x < A.base + A.len

end Area

/-- `r` is the lowest structure in the area, or 0 when it has none. -/
def Found (m : Mem) (A : Area) (r : Nat) : Prop :=
  (∀ p, A.Has p → ¬ MpAt m p) ∧ r = 0 ∨
    A.Has r ∧ MpAt m r ∧ ∀ p, A.Has p → MpAt m p → r ≤ p

/-- An area of whole paragraphs that does not wrap around. -/
theorem mpsearch1_found (m : Mem) {A : Area} (hbase : A.base % 16 = 0) (hlen : A.len % 16 = 0)
    (hend : A.base + A.len < 2 ^ 64) : Found m A ((mpsearch1 A.base A.len).val m) := by
  have hrounds : mpsearch1 A.base A.len = mpsearchFrom A.base (A.len / 16) := by
    have hcount : ((A.base + A.len) % 2 ^ 64 - A.base + (16 - 1)) / 16 = A.len / 16 := by omega
    exact congrArg (mpsearchFrom A.base) hcount
  have hplace : ∀ i, i < A.len / 16 ↔ A.Has (A.base + 16 * i) := by
    intro i
    unfold Area.Has
    omega
  have hindex : ∀ p, A.Has p → ∃ i, p = A.base + 16 * i := by
    intro p hp
    unfold Area.Has at hp
    exact ⟨(p - A.base) / 16, by omega⟩
  rw [hrounds]
  rcases mpsearchFrom_cases m A.base (A.len / 16) with ⟨hnone, hval⟩ | ⟨i, hi, hat, hbefore, hval⟩
  · refine Or.inl ⟨fun p hp => ?_, hval⟩
    obtain ⟨i, rfl⟩ := hindex p hp
    exact hnone i ((hplace i).2 hp)
  · rw [hval]
    refine Or.inr ⟨(hplace i).1 hi, hat, fun p hp hat' => ?_⟩
    obtain ⟨j, rfl⟩ := hindex p hp
    by_contra hlt
    exact hbefore j (by omega) hat'

/-! ## What is read -/

theorem mem_memcmp_addrs {m : Mem} {a x : Nat} {cs : List UInt8} (h : x ∈ (memcmp a cs).addrs m) :
    a ≤ x ∧ x < a + cs.length := by
  induction cs generalizing a with
  | nil => cases h
  | cons c cs ih =>
    rw [memcmp, addrs_bind, addrs_byte, addrs_ite, addrs_pure, List.mem_append,
      List.mem_singleton] at h
    rw [List.length_cons]
    rcases h with rfl | h
    · omega
    · split at h
      · cases h
      · have := ih h
        omega

/-- The condition of `mpsearch1` reads the structure only. -/
theorem mem_isMp_addrs {m : Mem} {p x : Nat} (h : x ∈ (isMp p).addrs m) :
    p ≤ x ∧ x < p + sizeofMp := by
  rw [isMp, addrs_bind, List.mem_append, addrs_ite] at h
  rcases h with h | h
  · have := mem_memcmp_addrs h
    rw [show (ascii "_MP_").length = 4 from rfl] at this
    unfold sizeofMp
    omega
  · split at h
    · rw [addrs_bind, addrs_pure, List.append_nil, sum_addrs, List.mem_map] at h
      obtain ⟨i, hi, rfl⟩ := h
      have := List.mem_range.1 hi
      omega
    · cases h

theorem mem_mpsearchFrom_addrs {m : Mem} {p n x : Nat} (h : x ∈ (mpsearchFrom p n).addrs m) :
    p ≤ x ∧ x < p + 16 * n := by
  induction n generalizing p with
  | zero => cases h
  | succ n ih =>
    rw [mpsearchFrom, addrs_bind, List.mem_append, addrs_ite, addrs_pure] at h
    rcases h with h | h
    · have := mem_isMp_addrs h
      unfold sizeofMp at this
      omega
    · split at h
      · cases h
      · have := ih h
        unfold sizeofMp at this
        omega

/-- The scan stays in its area, also when the end of the area wraps around. -/
theorem mem_mpsearch1_addrs {m : Mem} {A : Area} {x : Nat} (hlen : A.len % 16 = 0)
    (h : x ∈ (mpsearch1 A.base A.len).addrs m) : A.Covers x := by
  have := mem_mpsearchFrom_addrs h
  unfold sizeofMp at this
  unfold Area.Covers
  omega

/-! ## The areas -/

/-- The start of the EBDA by the BIOS data area, and the size of base
memory. -/
def ebda (m : Mem) : Nat := ((m 0x40f).toNat * 256 + (m 0x40e).toNat) * 16
def baseMemory (m : Mem) : Nat := ((m 0x414).toNat * 256 + (m 0x413).toNat) * 1024

/-- The first kilobyte of the EBDA, or without one the last kilobyte of base
memory.  Base memory of size 0 has none. -/
def firstArea (m : Mem) : Area :=
  if ebda m ≠ 0 then ⟨ebda m, 1024⟩ else ⟨baseMemory m - 1024, min (baseMemory m) 1024⟩

/-- The area of the comment, and the part of it that is searched. -/
def biosRom : Area := ⟨0xe0000, 0x20000⟩
def searchedRom : Area := ⟨0xf0000, 0x10000⟩

/-- The areas that the comment of `mpsearch` lists, in their order. -/
def areas (m : Mem) : List Area := [firstArea m, biosRom]

/-- The search in the last kilobyte of base memory.  For the size 0 its start
wraps around, and then its end does too: there is no round. -/
def searchBase (base : Nat) : Reads Nat := mpsearch1 ((base + 2 ^ 64 - 1024) % 2 ^ 64) 1024

theorem kilobyte_mod : 1024 % 16 = 0 := by decide

section LastKilobyte

variable {base : Nat} (hbase : base % 1024 = 0) (hlt : base < 2 ^ 64)

include hbase hlt

theorem searchBase_cases :
    base = 0 ∧ searchBase base = pure 0 ∨
      1024 ≤ base ∧ searchBase base = mpsearch1 (base - 1024) 1024 := by
  rcases Nat.eq_zero_or_pos base with rfl | hpos
  · exact Or.inl ⟨rfl, rfl⟩
  · refine Or.inr ⟨by omega, ?_⟩
    have hstart : (base + 2 ^ 64 - 1024) % 2 ^ 64 = base - 1024 := by omega
    rw [searchBase, hstart]

theorem searchBase_found (m : Mem) :
    Found m ⟨base - 1024, min base 1024⟩ ((searchBase base).val m) := by
  rcases searchBase_cases hbase hlt with ⟨rfl, hnone⟩ | ⟨hle, hscan⟩
  · rw [hnone]
    refine Or.inl ⟨fun p hp => ?_, rfl⟩
    obtain ⟨_, _, hp⟩ := hp
    exact absurd hp (Nat.not_lt_zero p)
  · rw [hscan, Nat.min_eq_right hle]
    have hend : base - 1024 + 1024 < 2 ^ 64 := by omega
    have hstart : (base - 1024) % 16 = 0 := by omega
    exact mpsearch1_found m (A := ⟨base - 1024, 1024⟩) hstart kilobyte_mod hend

theorem mem_searchBase_addrs {m : Mem} {x : Nat} (h : x ∈ (searchBase base).addrs m) :
    Area.Covers ⟨base - 1024, min base 1024⟩ x := by
  rcases searchBase_cases hbase hlt with ⟨rfl, hnone⟩ | ⟨hle, hscan⟩
  · rw [hnone] at h
    cases h
  · rw [hscan] at h
    rw [Nat.min_eq_right hle]
    exact mem_mpsearch1_addrs (A := ⟨base - 1024, 1024⟩) kilobyte_mod h

end LastKilobyte

theorem ebda_lt (m : Mem) : ebda m < 2 ^ 20 := by
  have hhi := UInt8.toNat_lt (m 0x40f)
  have hlo := UInt8.toNat_lt (m 0x40e)
  unfold ebda
  omega

theorem baseMemory_lt (m : Mem) : baseMemory m < 2 ^ 64 := by
  have hhi := UInt8.toNat_lt (m 0x414)
  have hlo := UInt8.toNat_lt (m 0x413)
  unfold baseMemory
  omega

theorem baseMemory_mod (m : Mem) : baseMemory m % 1024 = 0 := Nat.mul_mod_left _ _

/-- The first search of `mpsearch`. -/
def searchFirst (m : Mem) : Reads Nat :=
  if ebda m ≠ 0 then mpsearch1 (ebda m) 1024 else searchBase (baseMemory m)

theorem searchFirst_found (m : Mem) : Found m (firstArea m) ((searchFirst m).val m) := by
  unfold searchFirst firstArea
  split
  · have hlt := ebda_lt m
    have hmod : ebda m % 16 = 0 := Nat.mul_mod_left _ _
    have hend : ebda m + 1024 < 2 ^ 64 := by omega
    exact mpsearch1_found m (A := ⟨ebda m, 1024⟩) hmod kilobyte_mod hend
  · exact searchBase_found (baseMemory_mod m) (baseMemory_lt m) m

theorem mem_searchFirst_addrs {m : Mem} {x : Nat} (h : x ∈ (searchFirst m).addrs m) :
    (firstArea m).Covers x := by
  unfold searchFirst at h
  unfold firstArea
  split at h
  · rename_i hebda
    rw [if_pos hebda]
    exact mem_mpsearch1_addrs (A := ⟨ebda m, 1024⟩) kilobyte_mod h
  · rename_i hebda
    rw [if_neg hebda]
    exact mem_searchBase_addrs (baseMemory_mod m) (baseMemory_lt m) h

theorem searchRom_found (m : Mem) : Found m searchedRom (mpsearchRom.val m) :=
  mpsearch1_found m (A := searchedRom) rfl rfl (by decide)

/-- The ROM is searched when the first search has found nothing. -/
def orRom (search : Reads Nat) : Reads Nat := do
  let mp ← search
  if mp ≠ 0 then pure mp else mpsearchRom

theorem mpsearch_eq : mpsearch = (do
    let hi ← byte 0x40f
    let lo ← byte 0x40e
    if (hi.toNat * 256 + lo.toNat) * 16 ≠ 0 then
      orRom (mpsearch1 ((hi.toNat * 256 + lo.toNat) * 16) 1024)
    else do
      let hi ← byte 0x414
      let lo ← byte 0x413
      orRom (searchBase ((hi.toNat * 256 + lo.toNat) * 1024))) := rfl

theorem mpsearch_val (m : Mem) : mpsearch.val m = (orRom (searchFirst m)).val m := by
  rw [mpsearch_eq, val_bind, val_bind, val_byte, val_byte, searchFirst, ← ebda]
  by_cases hebda : ebda m ≠ 0
  · rw [if_pos hebda, if_pos hebda]
  · rw [if_neg hebda, if_neg hebda, val_bind, val_bind, val_byte, val_byte, ← baseMemory]

/-- The ROM counts when the first search has found nothing. -/
theorem mpsearch_val_ite (m : Mem) :
    mpsearch.val m = if (searchFirst m).val m ≠ 0 then (searchFirst m).val m
      else mpsearchRom.val m := by
  rw [mpsearch_val, orRom, val_bind, val_ite, val_pure]

theorem mem_mpsearch_addrs {m : Mem} {x : Nat} (h : x ∈ mpsearch.addrs m) :
    x ∈ [0x40e, 0x40f, 0x413, 0x414] ∨ x ∈ (orRom (searchFirst m)).addrs m := by
  rw [mpsearch_eq, addrs_bind, addrs_bind, addrs_byte, addrs_byte, val_byte, val_byte, ← ebda,
    List.mem_append, List.mem_append, List.mem_singleton, List.mem_singleton] at h
  rw [searchFirst]
  rcases h with rfl | rfl | h
  · exact Or.inl (by simp)
  · exact Or.inl (by simp)
  · by_cases hebda : ebda m ≠ 0
    · rw [if_pos hebda] at h ⊢
      exact Or.inr h
    · rw [if_neg hebda, addrs_bind, addrs_bind, addrs_byte, addrs_byte, val_byte, val_byte,
        ← baseMemory, List.mem_append, List.mem_append, List.mem_singleton, List.mem_singleton] at h
      rw [if_neg hebda]
      rcases h with rfl | rfl | h
      · exact Or.inl (by simp)
      · exact Or.inl (by simp)
      · exact Or.inr h

/-- Without an EBDA and base memory, and without the first letter of a
structure in the ROM, there is nothing to find. -/
theorem mpsearch_eq_zero {m : Mem} (hbda : ∀ a ∈ [0x40e, 0x40f, 0x413, 0x414], m a = 0)
    (hrom : ∀ p, 0xf0000 ≤ p → m p ≠ chr '_') : mpsearch.val m = 0 := by
  have hebda : ebda m = 0 := by
    rw [ebda, hbda 0x40f (by decide), hbda 0x40e (by decide)]
    rfl
  have hbase : baseMemory m = 0 := by
    rw [baseMemory, hbda 0x414 (by decide), hbda 0x413 (by decide)]
    rfl
  have hfirst : (searchFirst m).val m = 0 := by
    rw [searchFirst, if_neg (not_not.2 hebda), hbase]
    rfl
  rw [mpsearch_val_ite, if_neg (not_not.2 hfirst)]
  rcases searchRom_found m with ⟨_, hnull⟩ | ⟨hhas, hat, _⟩
  · exact hnull
  · exact absurd (holds_cons.1 hat.1).1 (hrom _ hhas.2.1)

/-- No content of the BIOS data area makes the search read outside its
areas. -/
theorem mpsearch_inside {m : Mem} {x : Nat} (h : x ∈ mpsearch.addrs m) :
    x ∈ [0x40e, 0x40f, 0x413, 0x414] ∨ ∃ A ∈ areas m, A.Covers x := by
  rcases mem_mpsearch_addrs h with h | h
  · exact Or.inl h
  · rw [orRom, addrs_bind, List.mem_append, addrs_ite, addrs_pure] at h
    refine Or.inr ?_
    rcases h with h | h
    · exact ⟨firstArea m, List.mem_cons_self, mem_searchFirst_addrs h⟩
    · split at h
      · cases h
      · have hcovers := mem_mpsearch1_addrs (A := searchedRom) (by decide) h
        refine ⟨biosRom, List.mem_cons_of_mem _ List.mem_cons_self, ?_⟩
        unfold Area.Covers searchedRom biosRom at *
        dsimp only at *
        omega

/-! ## What the comment promises -/

/-- `r` is the answer that the comment of `mpsearch` promises: the lowest
structure of the first area that has one, or 0 when there is none; and the
search reads the BIOS data area and the areas only. -/
structure Located (m : Mem) (r : Nat) : Prop where
  nonnull_iff : r ≠ 0 ↔ ∃ A ∈ areas m, ∃ p, A.Has p ∧ MpAt m p
  lowest : r ≠ 0 → ∃ before A behind, areas m = before ++ A :: behind ∧
    (∀ B ∈ before, ∀ p, B.Has p → ¬ MpAt m p) ∧
    A.Has r ∧ MpAt m r ∧ ∀ p, A.Has p → MpAt m p → r ≤ p
  inside : ∀ x ∈ mpsearch.addrs m, x ∈ [0x40e, 0x40f, 0x413, 0x414] ∨ ∃ A ∈ areas m, A.Covers x

/-- The places of the ROM are those that are searched and those below. -/
theorem biosRom_has_iff {p : Nat} :
    biosRom.Has p ↔ searchedRom.Has p ∨ p % 16 = 0 ∧ 0xe0000 ≤ p ∧ p < 0xf0000 := by
  unfold Area.Has biosRom searchedRom
  dsimp only
  omega

section Located

variable {m : Mem} {r : Nat}

/-- The first area has the answer, or none of its places has a structure. -/
theorem Located.first_or_rom (h : Located m r) (hr : r ≠ 0) :
    ((firstArea m).Has r ∧ MpAt m r ∧ ∀ p, (firstArea m).Has p → MpAt m p → r ≤ p) ∨
      (∀ p, (firstArea m).Has p → ¬ MpAt m p) ∧ ∀ p, biosRom.Has p → MpAt m p → r ≤ p := by
  obtain ⟨before, A, behind, hareas, hbefore, hfound⟩ := h.lowest hr
  cases before with
  | nil =>
    obtain ⟨rfl, _⟩ := List.cons.inj hareas
    exact Or.inl hfound
  | cons B before =>
    obtain ⟨rfl, hrest⟩ := List.cons.inj hareas
    refine Or.inr ⟨hbefore _ List.mem_cons_self, ?_⟩
    cases before with
    | nil =>
      obtain ⟨rfl, _⟩ := List.cons.inj hrest
      exact hfound.2.2
    | cons C before =>
      have hlen := congrArg List.length hrest
      simp at hlen

theorem exists_area_iff :
    (∃ A ∈ areas m, ∃ p, A.Has p ∧ MpAt m p) ↔
      (∃ p, (firstArea m).Has p ∧ MpAt m p) ∨ ∃ p, biosRom.Has p ∧ MpAt m p := by
  simp [areas]

/-- An answer from the first area. -/
theorem located_of_first (hr : r ≠ 0) (hhas : (firstArea m).Has r) (hat : MpAt m r)
    (hle : ∀ p, (firstArea m).Has p → MpAt m p → r ≤ p) : Located m r where
  nonnull_iff := ⟨fun _ => exists_area_iff.2 (Or.inl ⟨r, hhas, hat⟩), fun _ => hr⟩
  lowest _ := ⟨[], firstArea m, [biosRom], rfl, by simp, hhas, hat, hle⟩
  inside _ := mpsearch_inside

/-- An answer from the ROM, when the structures of the ROM are all in the part
that is searched. -/
theorem located_of_rom (hnone : ∀ p, (firstArea m).Has p → ¬ MpAt m p)
    (hlower : ∀ p, p % 16 = 0 → 0xe0000 ≤ p → p < 0xf0000 → ¬ MpAt m p)
    (hfound : Found m searchedRom r) : Located m r := by
  have hrom : ∀ p, biosRom.Has p → MpAt m p → searchedRom.Has p := by
    intro p hp hat
    rcases biosRom_has_iff.1 hp with hp | ⟨hmod, hlow, hhigh⟩
    · exact hp
    · exact absurd hat (hlower p hmod hlow hhigh)
  rcases hfound with ⟨hempty, rfl⟩ | ⟨hhas, hat, hle⟩
  · refine ⟨⟨fun h => absurd rfl h, fun h => ?_⟩, fun h => absurd rfl h, fun _ => mpsearch_inside⟩
    rcases exists_area_iff.1 h with ⟨p, hp, hat⟩ | ⟨p, hp, hat⟩
    · exact absurd hat (hnone p hp)
    · exact absurd hat (hempty p (hrom p hp hat))
  · have hbios : biosRom.Has r := biosRom_has_iff.2 (Or.inl hhas)
    have hr : r ≠ 0 := by
      obtain ⟨_, hlow, _⟩ := hhas
      unfold searchedRom at hlow
      dsimp only at hlow
      omega
    refine ⟨⟨fun _ => exists_area_iff.2 (Or.inr ⟨r, hbios, hat⟩), fun _ => hr⟩, fun _ => ?_,
      fun _ => mpsearch_inside⟩
    refine ⟨[firstArea m], biosRom, [], rfl, ?_, hbios, hat, fun p hp hat' => ?_⟩
    · intro B hB
      obtain rfl := List.mem_singleton.1 hB
      exact hnone
    · exact hle p (hrom p hp hat') hat'

/-- The null pointer is no answer for a structure at the address 0. -/
theorem Located.not_zero (h : Located m r) : ¬ ((firstArea m).Has 0 ∧ MpAt m 0) := by
  intro hzero
  have hr : r ≠ 0 := h.nonnull_iff.2 (exists_area_iff.2 (Or.inl ⟨0, hzero⟩))
  rcases h.first_or_rom hr with ⟨_, _, hle⟩ | ⟨hnone, _⟩
  · exact hr (Nat.le_zero.1 (hle 0 hzero.1 hzero.2))
  · exact hnone 0 hzero.1 hzero.2

/-- An answer from the part of the ROM that is searched is not the lowest one
when there is a structure below. -/
theorem Located.not_lower (h : Located m r) (hfound : Found m searchedRom r)
    (hnone : ∀ p, (firstArea m).Has p → ¬ MpAt m p) {p : Nat} (hp : p % 16 = 0)
    (hlow : 0xe0000 ≤ p) (hhigh : p < 0xf0000) : ¬ MpAt m p := by
  intro hat
  have hhas : biosRom.Has p := biosRom_has_iff.2 (Or.inr ⟨hp, hlow, hhigh⟩)
  have hr : r ≠ 0 := h.nonnull_iff.2 (exists_area_iff.2 (Or.inr ⟨p, hhas, hat⟩))
  rcases h.first_or_rom hr with ⟨hin, hat', _⟩ | ⟨_, hle⟩
  · exact hnone _ hin hat'
  · have hbelow := hle p hhas hat
    rcases hfound with ⟨_, hzero⟩ | ⟨hin, _, _⟩
    · exact hr hzero
    · have habove := hin.2.1
      unfold searchedRom at habove
      dsimp only at habove
      omega

end Located

/-- The search finds what its comment promises exactly when no structure
stands at the address 0 in the last kilobyte of base memory, and, unless the
first area has one, no structure stands in the lower half of the ROM. -/
theorem mpsearch_located_iff (m : Mem) :
    Located m (mpsearch.val m) ↔
      ¬ ((firstArea m).Has 0 ∧ MpAt m 0) ∧
        ((∃ p, (firstArea m).Has p ∧ MpAt m p) ∨
          ∀ p, p % 16 = 0 → 0xe0000 ≤ p → p < 0xf0000 → ¬ MpAt m p) := by
  have hrom := searchRom_found m
  rw [mpsearch_val_ite]
  rcases searchFirst_found m with ⟨hnone, hnull⟩ | ⟨hhas, hat, hle⟩
  · -- nothing in the first area
    rw [if_neg (not_not.2 hnull)]
    have hno : ¬ ∃ p, (firstArea m).Has p ∧ MpAt m p := fun h =>
      hnone h.choose h.choose_spec.1 h.choose_spec.2
    constructor
    · intro h
      exact ⟨h.not_zero, Or.inr fun p hp hlow hhigh => h.not_lower hrom hnone hp hlow hhigh⟩
    · intro hcond
      exact located_of_rom hnone (hcond.2.resolve_left hno) hrom
  · constructor
    · intro h
      exact ⟨h.not_zero, Or.inl ⟨_, hhas, hat⟩⟩
    · intro hcond
      have hr : (searchFirst m).val m ≠ 0 := by
        intro hnull
        rw [hnull] at hhas hat
        exact hcond.1 ⟨hhas, hat⟩
      rw [if_pos hr]
      exact located_of_first hr hhas hat hle

/-- A memory with a structure at the start of the BIOS ROM. -/
def lowRom : Mem := fun a =>
  if 0xe0000 ≤ a then
    (ascii "_MP_" ++ [0x10, 0x00, 0x0f, 0x00, 0x01, 0x04, 0x81, 0, 0, 0, 0, 0]).getD (a - 0xe0000) 0
  else 0

/-- The structure at `0xe0000` is not found. -/
theorem mpsearch_misses_lowRom : MpAt lowRom 0xe0000 ∧ mpsearch.val lowRom = 0 ∧
    ¬ Located lowRom (mpsearch.val lowRom) := by
  have hat : MpAt lowRom 0xe0000 := isMp_val.1 (by decide +kernel)
  have hnull : mpsearch.val lowRom = 0 := by
    apply mpsearch_eq_zero (by decide)
    intro p hp
    rw [lowRom, if_pos (by omega), List.getD_eq_default _ _ (by simp [ascii]; omega)]
    decide
  refine ⟨hat, hnull, fun h => h.nonnull_iff.2 ?_ hnull⟩
  exact exists_area_iff.2 (Or.inr ⟨0xe0000, by unfold Area.Has biosRom; decide, hat⟩)

end HyperBench.Mp

import HyperBench.Lib.ByteMem
import Mathlib.Tactic.IntervalCases

/-!
# Page-table constants and the hardware walk

The macros of `include/page.h` in the 64-bit configuration, and the
translation that the processor makes with them.

* `PGDIR_OFFSET` cuts the index of one level out of an address.
  `PGDIR_OFFSET_eq_index` reads it as one base-512 digit of the page number
  `vpn`, which is what makes the four indices of an address injective on
  page numbers.
* `walk` is the 4-level walk of the processor: the present bit is tested at
  every level, the write and user rights are the conjunction over the
  levels, and bit 7 ends the walk early with a 1 GB or a 2 MB page.
* `entryOf` is the value that the kernel stores for a table or a frame.  The
  lemmas below it give the fields that the walk cuts out of that value.
-/

namespace HyperBench

open ByteMem

/-! ## The macros -/

def PAGE_SHIFT : Nat := 12
def PAGE_SIZE : Nat := 1 <<< PAGE_SHIFT

def PT_PRESENT_MASK : Nat := 1 <<< 0
def PT_WRITABLE_MASK : Nat := 1 <<< 1
def PT_USER_MASK : Nat := 1 <<< 2
def PT_PAGE_SIZE_MASK : Nat := 1 <<< 7

/-- `GENMASK_ULL(h, l)`: the ones from bit `l` up to bit `h`, in 64 bits. -/
def GENMASK_ULL (h l : Nat) : Nat :=
  ((2 ^ 64 - 1) <<< l) % 2 ^ 64 &&& ((2 ^ 64 - 1) >>> (64 - 1 - h))

def PT_ADDR_MASK : Nat := GENMASK_ULL 51 12

def PAGE_LEVEL : Nat := 4
def PGDIR_WIDTH : Nat := 9
def PGDIR_MASK : Nat := 511

def PGDIR_BITS (lvl : Nat) : Nat := (lvl - 1) * PGDIR_WIDTH + PAGE_SHIFT
def PGDIR_OFFSET (va lvl : Nat) : Nat := (va >>> PGDIR_BITS lvl) &&& PGDIR_MASK

@[simp] theorem PAGE_SIZE_eq : PAGE_SIZE = 4096 := rfl

@[simp] theorem PAGE_LEVEL_eq : PAGE_LEVEL = 4 := rfl

/-! ## Bits of an entry -/

theorem and_PT_PRESENT_MASK (e : Nat) : e &&& PT_PRESENT_MASK = e % 2 := by
  rw [show PT_PRESENT_MASK = 2 ^ 1 - 1 from rfl, Nat.and_two_pow_sub_one_eq_mod]

/-- A mask of one bit selects that bit. -/
theorem and_two_pow_eq_zero (e i : Nat) : e &&& 2 ^ i = 0 ↔ e / 2 ^ i % 2 = 0 := by
  rw [Nat.and_two_pow, Nat.testBit_eq_decide_div_mod_eq]
  by_cases h : e / 2 ^ i % 2 = 1
  · simp [h]
  · have h0 : e / 2 ^ i % 2 = 0 := by omega
    simp [h0]

theorem and_PT_ADDR_MASK (e : Nat) :
    e &&& PT_ADDR_MASK = e % 2 ^ 52 / 4096 * 4096 := by
  have hmask : PT_ADDR_MASK = (2 ^ 40 - 1) <<< 12 := by decide
  have hval : e % 2 ^ 52 / 4096 * 4096 = ((e >>> 12) % 2 ^ 40) <<< 12 := by
    rw [Nat.shiftRight_eq_div_pow, Nat.shiftLeft_eq]
    omega
  rw [hmask, hval]
  apply Nat.eq_of_testBit_eq
  intro i
  simp only [Nat.testBit_and, Nat.testBit_shiftLeft, Nat.testBit_two_pow_sub_one,
    Nat.testBit_mod_two_pow, Nat.testBit_shiftRight]
  by_cases hi : 12 ≤ i
  · rw [show 12 + (i - 12) = i by omega]
    simp [hi, Bool.and_comm]
  · simp [hi]

/-! ## The value of an entry -/

/-- The value of a table slot: nothing, or the address of a page with the
present, write and user bits. -/
def entryOf : Option Nat → Nat
  | none => 0
  | some p => p ||| PT_PRESENT_MASK ||| PT_WRITABLE_MASK ||| PT_USER_MASK

@[simp] theorem entryOf_none : entryOf none = 0 := rfl

/-- Flag bits lie below a page-aligned address. -/
theorem or_flags {p flags : Nat} (hp : p % 4096 = 0) (hflags : flags < 2 ^ 12) :
    p ||| flags = p + flags := by
  have hshift : (p / 4096) <<< 12 = p := by
    rw [Nat.shiftLeft_eq]
    omega
  have hor := Nat.shiftLeft_add_eq_or_of_lt hflags (p / 4096)
  rw [hshift] at hor
  exact hor.symm

theorem entryOf_some {p : Nat} (hp : p % 4096 = 0) : entryOf (some p) = p + 7 := by
  rw [entryOf, Nat.or_assoc, Nat.or_assoc]
  exact or_flags hp (by decide)

/-- An entry fits into its slot. -/
theorem entryOf_mod {p : Nat} (ha : p % 4096 = 0) (hb : p < 2 ^ 52) :
    entryOf (some p) % 256 ^ 8 = entryOf (some p) := by
  rw [entryOf_some ha]
  omega

/-! ## Page numbers -/

/-- The bits 12 to 47 of an address. -/
def vpn (va : Nat) : Nat := va / 4096 % 2 ^ 36

/-- A 64-bit address whose bits 47 to 63 are equal. -/
def Canonical (va : Nat) : Prop := va < 2 ^ 47 ∨ 2 ^ 64 - 2 ^ 47 ≤ va ∧ va < 2 ^ 64

instance (va : Nat) : Decidable (Canonical va) := by
  unfold Canonical
  infer_instance

/-- On canonical addresses the bits 12 to 47 decide the page. -/
theorem vpn_eq_iff {va va' : Nat} (h : Canonical va) (h' : Canonical va') :
    vpn va = vpn va' ↔ va / 4096 = va' / 4096 := by
  unfold Canonical at h h'
  unfold vpn
  omega

theorem vpn_lt (va : Nat) : vpn va < 512 ^ 4 := Nat.mod_lt _ (by decide)

theorem PGDIR_OFFSET_lt (va lvl : Nat) : PGDIR_OFFSET va lvl < 512 := by
  have h : PGDIR_MASK = 2 ^ 9 - 1 := rfl
  rw [PGDIR_OFFSET, h, Nat.and_two_pow_sub_one_eq_mod]
  exact Nat.mod_lt _ (by decide)

/-- The index of a level is one base-512 digit of the page number. -/
theorem PGDIR_OFFSET_eq_index {lvl : Nat} (hlvl : lvl < 4) (va : Nat) :
    PGDIR_OFFSET va (lvl + 1) = vpn va / 512 ^ lvl % 512 := by
  have hmask : PGDIR_MASK = 2 ^ 9 - 1 := rfl
  rw [PGDIR_OFFSET, hmask, Nat.and_two_pow_sub_one_eq_mod, Nat.shiftRight_eq_div_pow]
  unfold PGDIR_BITS PGDIR_WIDTH PAGE_SHIFT vpn
  interval_cases lvl <;> omega

/-! ## The hardware walk -/

/-- What the processor finds for an address. -/
structure Translation where
  phys : Nat
  writable : Bool
  user : Bool
  deriving DecidableEq, Repr

/-- The walk from the table of one level down.  `writable` and `user` are
the rights collected above that level. -/
def walkFrom (m : Mem) (va : Nat) : Nat → Nat → Bool → Bool → Option Translation
  | 0, _, _, _ => none
  | level + 1, table, writable, user =>
    let e := load m (table + 8 * PGDIR_OFFSET va (level + 1)) 8
    if e &&& PT_PRESENT_MASK = 0 then none
    else
      let writable := writable && e &&& PT_WRITABLE_MASK != 0
      let user := user && e &&& PT_USER_MASK != 0
      if level = 0 then some ⟨(e &&& PT_ADDR_MASK) + va % PAGE_SIZE, writable, user⟩
      else if e &&& PT_PAGE_SIZE_MASK ≠ 0 then
        -- bit 7 is reserved in the top table, and the access faults there
        if level + 1 = PAGE_LEVEL then none
        else
          let span := 2 ^ PGDIR_BITS (level + 1)
          some ⟨(e &&& PT_ADDR_MASK) / span * span + va % span, writable, user⟩
      else walkFrom m va level (e &&& PT_ADDR_MASK) writable user

/-- The translation of `va` under the table root `cr3`. -/
def walk (m : Mem) (cr3 va : Nat) : Option Translation :=
  walkFrom m va PAGE_LEVEL (cr3 &&& PT_ADDR_MASK) true true

/-- The address field of a root register that holds a page address. -/
theorem root_and_PT_ADDR_MASK {p : Nat} (ha : p % 4096 = 0) (hb : p < 2 ^ 52) :
    p &&& PT_ADDR_MASK = p := by
  rw [and_PT_ADDR_MASK]
  omega

/-- The address field of a present entry. -/
theorem entryOf_and_PT_ADDR_MASK {p : Nat} (ha : p % 4096 = 0) (hb : p < 2 ^ 52) :
    entryOf (some p) &&& PT_ADDR_MASK = p := by
  rw [entryOf_some ha, and_PT_ADDR_MASK]
  omega

theorem entryOf_and_PT_PRESENT_MASK {p : Nat} (ha : p % 4096 = 0) :
    entryOf (some p) &&& PT_PRESENT_MASK = 1 := by
  rw [entryOf_some ha, and_PT_PRESENT_MASK]
  omega

theorem entryOf_and_PT_WRITABLE_MASK {p : Nat} (ha : p % 4096 = 0) :
    entryOf (some p) &&& PT_WRITABLE_MASK ≠ 0 := by
  rw [entryOf_some ha, show PT_WRITABLE_MASK = 2 ^ 1 from rfl, Ne, and_two_pow_eq_zero]
  omega

theorem entryOf_and_PT_USER_MASK {p : Nat} (ha : p % 4096 = 0) :
    entryOf (some p) &&& PT_USER_MASK ≠ 0 := by
  rw [entryOf_some ha, show PT_USER_MASK = 2 ^ 2 from rfl, Ne, and_two_pow_eq_zero]
  omega

theorem entryOf_and_PT_PAGE_SIZE_MASK {p : Nat} (ha : p % 4096 = 0) :
    entryOf (some p) &&& PT_PAGE_SIZE_MASK = 0 := by
  rw [entryOf_some ha, show PT_PAGE_SIZE_MASK = 2 ^ 7 from rfl, and_two_pow_eq_zero]
  omega

/-- An empty slot ends the walk. -/
theorem walkFrom_of_empty {m : Mem} {va level table : Nat} {writable user : Bool}
    (he : load m (table + 8 * PGDIR_OFFSET va (level + 1)) 8 = entryOf none) :
    walkFrom m va (level + 1) table writable user = none := by
  simp [walkFrom, he]

/-- A slot of the last level gives the frame. -/
theorem walkFrom_of_frame {m : Mem} {va table f : Nat} {writable user : Bool}
    (ha : f % 4096 = 0) (hb : f < 2 ^ 52)
    (he : load m (table + 8 * PGDIR_OFFSET va 1) 8 = entryOf (some f)) :
    walkFrom m va 1 table writable user = some ⟨f + va % 4096, writable, user⟩ := by
  simp [walkFrom, he, entryOf_and_PT_PRESENT_MASK ha, entryOf_and_PT_ADDR_MASK ha hb,
    entryOf_and_PT_WRITABLE_MASK ha, entryOf_and_PT_USER_MASK ha]

/-- A slot of an upper level leads to the next table. -/
theorem walkFrom_of_table {m : Mem} {va level table p : Nat} {writable user : Bool}
    (hlevel : 0 < level) (ha : p % 4096 = 0) (hb : p < 2 ^ 52)
    (he : load m (table + 8 * PGDIR_OFFSET va (level + 1)) 8 = entryOf (some p)) :
    walkFrom m va (level + 1) table writable user = walkFrom m va level p writable user := by
  have hne : level ≠ 0 := by omega
  have hw := bne_iff_ne.2 (entryOf_and_PT_WRITABLE_MASK ha)
  have hu := bne_iff_ne.2 (entryOf_and_PT_USER_MASK ha)
  simp [walkFrom, he, hne, entryOf_and_PT_PRESENT_MASK ha, entryOf_and_PT_ADDR_MASK ha hb,
    hw, hu, entryOf_and_PT_PAGE_SIZE_MASK ha]

/-- A slot with bit 7 ends the walk with a large page. -/
theorem walkFrom_of_large {m : Mem} {va level table e : Nat} {writable user : Bool}
    (hlevel : 0 < level) (htop : level + 1 ≠ PAGE_LEVEL)
    (he : load m (table + 8 * PGDIR_OFFSET va (level + 1)) 8 = e)
    (hpresent : e &&& PT_PRESENT_MASK ≠ 0) (hwritable : e &&& PT_WRITABLE_MASK ≠ 0)
    (huser : e &&& PT_USER_MASK ≠ 0) (hsize : e &&& PT_PAGE_SIZE_MASK ≠ 0) :
    walkFrom m va (level + 1) table writable user
      = some ⟨(e &&& PT_ADDR_MASK) / 2 ^ PGDIR_BITS (level + 1) * 2 ^ PGDIR_BITS (level + 1)
          + va % 2 ^ PGDIR_BITS (level + 1), writable, user⟩ := by
  have hne : level ≠ 0 := by omega
  have hw := bne_iff_ne.2 hwritable
  have hu := bne_iff_ne.2 huser
  simp only [walkFrom, he, hpresent, if_false, hw, hu, hne, hsize, htop, ne_eq, not_false_eq_true,
    if_true, Bool.and_true]

end HyperBench

import HyperBench.PageTable

/-!
# The tables of `x86_64/cstart.S`

The kernel starts on the tables `ptl2`, `ptl3` and `ptl4` of the image, which
map the first 4 GB to themselves with pages of 2 MB.  The assembler puts the
three one behind the other.

* `BootTables m ptl2` says that memory still holds them, and
  `BootTables.walk_eq` what the processor finds.  A processor also sets the
  accessed flag, bit 5, in the entries of `ptl3` and `ptl4` that it goes through.
  No walk looks at it, and it is not modelled: a word here is what the program has
  stored.
* `IsTable` are the tables that some walk from a root reads.  For the trees
  of `install_page` these are nodes (`PageTable.isNode_of_isTable`).
-/

namespace HyperBench

open ByteMem Radix

/-! ## The boot tables -/

def ptl3 (ptl2 : Nat) : Nat := ptl2 + 4 * 4096

def ptl4 (ptl2 : Nat) : Nat := ptl3 ptl2 + 4096

/-- The bytes of the three tables. -/
def BootPage (ptl2 x : Nat) : Prop := InRange ptl2 (6 * 4096) x

/-- The words that the image has there.  The rest of a table is zero. -/
def bootWord (ptl2 i : Nat) : Nat :=
  if i < 512 * 4 then 0x1e7 ||| i <<< 21
  else if i < 512 * 4 + 4 then ptl2 + 7 + (i - 512 * 4) * 4096
  else if i = 512 * 5 then ptl3 ptl2 + 7
  else 0

/-- Memory holds the tables, up to the accessed flags that a walk leaves in `ptl3` and
`ptl4`. -/
structure BootTables (m : Mem) (ptl2 : Nat) : Prop where
  word : ∀ i, i < 512 * 6 → load m (ptl2 + 8 * i) 8 = bootWord ptl2 i
  aligned : ptl2 % 4096 = 0
  below : ptl2 + 6 * 4096 ≤ 2 ^ 32

namespace BootTables

variable {m m' : Mem} {ptl2 : Nat}

theorem frame (h : BootTables m ptl2) (hm : ∀ x, BootPage ptl2 x → m' x = m x) :
    BootTables m' ptl2 := by
  refine ⟨fun i hi => ?_, h.aligned, h.below⟩
  rw [← h.word i hi]
  apply load_congr
  intro x hx hx'
  apply hm
  unfold BootPage InRange
  omega

/-- An entry of `ptl2`: the number of a page of 2 MB, and the flags
`0x1e7`. -/
theorem large_entry (i : Nat) : 0x1e7 ||| i <<< 21 = i * 2 ^ 21 + 0x1e7 := by
  have hor := Nat.shiftLeft_add_eq_or_of_lt (show 0x1e7 < 2 ^ 21 by decide) i
  rw [Nat.or_comm, ← hor, Nat.shiftLeft_eq]

theorem large (h : BootTables m ptl2) {va : Nat} (hva : va < 2 ^ 32) (writable user : Bool) :
    walkFrom m va 2 (ptl2 + va / 2 ^ 30 * 4096) writable user = some ⟨va, writable, user⟩ := by
  have hoff : PGDIR_OFFSET va 2 = va / 2 ^ 21 % 512 := by
    rw [PGDIR_OFFSET_eq_index (by decide)]
    unfold vpn
    omega
  have haddr : ptl2 + va / 2 ^ 30 * 4096 + 8 * (va / 2 ^ 21 % 512) = ptl2 + 8 * (va / 2 ^ 21) := by
    omega
  have he : load m (ptl2 + va / 2 ^ 30 * 4096 + 8 * PGDIR_OFFSET va 2) 8
      = va / 2 ^ 21 * 2 ^ 21 + 0x1e7 := by
    rw [hoff, haddr, h.word _ (by omega), bootWord, if_pos (by omega), large_entry]
  have hpresent : (va / 2 ^ 21 * 2 ^ 21 + 0x1e7) &&& PT_PRESENT_MASK ≠ 0 := by
    rw [and_PT_PRESENT_MASK]
    omega
  have hwritable : (va / 2 ^ 21 * 2 ^ 21 + 0x1e7) &&& PT_WRITABLE_MASK ≠ 0 := by
    rw [show PT_WRITABLE_MASK = 2 ^ 1 from rfl, Ne, and_two_pow_eq_zero]
    omega
  have huser : (va / 2 ^ 21 * 2 ^ 21 + 0x1e7) &&& PT_USER_MASK ≠ 0 := by
    rw [show PT_USER_MASK = 2 ^ 2 from rfl, Ne, and_two_pow_eq_zero]
    omega
  have hsize : (va / 2 ^ 21 * 2 ^ 21 + 0x1e7) &&& PT_PAGE_SIZE_MASK ≠ 0 := by
    rw [show PT_PAGE_SIZE_MASK = 2 ^ 7 from rfl, Ne, and_two_pow_eq_zero]
    omega
  have haddress : (va / 2 ^ 21 * 2 ^ 21 + 0x1e7) &&& PT_ADDR_MASK = va / 2 ^ 21 * 2 ^ 21 := by
    rw [and_PT_ADDR_MASK]
    omega
  have hphys : va / 2 ^ 21 * 2 ^ 21 / 2 ^ 21 * 2 ^ 21 + va % 2 ^ 21 = va := by omega
  rw [walkFrom_of_large (by decide) (by decide) he hpresent hwritable huser hsize, haddress,
    show 2 ^ PGDIR_BITS (1 + 1) = 2 ^ 21 from rfl, hphys]

/-- The boot tables send the first 4 GB to themselves, with all rights. -/
theorem walk_eq (h : BootTables m ptl2) {va : Nat} (hva : va < 2 ^ 32) :
    walk m (ptl4 ptl2) va = some ⟨va, true, true⟩ := by
  have hal := h.aligned
  have hbe := h.below
  have hroot : ptl4 ptl2 &&& PT_ADDR_MASK = ptl4 ptl2 := by
    apply root_and_PT_ADDR_MASK
    · unfold ptl4 ptl3
      omega
    · unfold ptl4 ptl3
      omega
  have htop : PGDIR_OFFSET va (3 + 1) = 0 := by
    rw [PGDIR_OFFSET_eq_index (by decide)]
    unfold vpn
    omega
  have hnext : PGDIR_OFFSET va (2 + 1) = va / 2 ^ 30 := by
    rw [PGDIR_OFFSET_eq_index (by decide)]
    unfold vpn
    omega
  have h4 : load m (ptl4 ptl2 + 8 * PGDIR_OFFSET va (3 + 1)) 8 = entryOf (some (ptl3 ptl2)) := by
    rw [htop, entryOf_some (by unfold ptl3; omega)]
    have hword := h.word (512 * 5) (by decide)
    rw [show ptl2 + 8 * (512 * 5) = ptl4 ptl2 + 8 * 0 by unfold ptl4 ptl3; omega] at hword
    rw [hword]
    rfl
  have h3 : load m (ptl3 ptl2 + 8 * PGDIR_OFFSET va (2 + 1)) 8
      = entryOf (some (ptl2 + va / 2 ^ 30 * 4096)) := by
    rw [hnext, entryOf_some (by omega)]
    have hword := h.word (512 * 4 + va / 2 ^ 30) (by omega)
    rw [show ptl2 + 8 * (512 * 4 + va / 2 ^ 30) = ptl3 ptl2 + 8 * (va / 2 ^ 30) by
      unfold ptl3; omega] at hword
    rw [hword, bootWord, if_neg (by omega), if_pos (by omega)]
    omega
  rw [walk, hroot, PAGE_LEVEL_eq,
    walkFrom_of_table (by decide) (by unfold ptl3; omega) (by unfold ptl3; omega) h4,
    walkFrom_of_table (by decide) (by omega) (by omega) h3]
  exact h.large hva true true

end BootTables

/-! ## The tables below a root -/

/-- The tables that the walk of `va` reads. -/
def walkTables (m : Mem) (va : Nat) : Nat → Nat → List Nat
  | 0, _ => []
  | level + 1, table =>
    let e := load m (table + 8 * PGDIR_OFFSET va (level + 1)) 8
    if e &&& PT_PRESENT_MASK = 0 ∨ e &&& PT_PAGE_SIZE_MASK ≠ 0 then [table]
    else table :: walkTables m va level (e &&& PT_ADDR_MASK)

/-- `p` is a table of the root `cr3`. -/
def IsTable (m : Mem) (cr3 p : Nat) : Prop :=
  ∃ va, p ∈ walkTables m va PAGE_LEVEL (cr3 &&& PT_ADDR_MASK)

namespace PageTable

variable {m : Mem} {root : Nat} {T : RadixTree Nat}

theorem isNode_of_mem_walkTables (h : PageTable m root T) {va level p q : Nat} (hlevel : level < 4)
    (hp : T (level + 1) (vpn va / 512 ^ (level + 1)) = some p)
    (hq : q ∈ walkTables m va (level + 1) p) : T.IsNode q := by
  induction level generalizing p with
  | zero =>
    have hqp : q = p := by
      rw [walkTables] at hq
      split at hq <;> simpa [walkTables] using hq
    rw [hqp]
    exact ⟨0, _, hp⟩
  | succ level ih =>
    have he := h.entry_path hlevel hp
    rw [← PGDIR_OFFSET_eq_index hlevel] at he
    rw [walkTables] at hq
    split at hq
    · rw [List.mem_singleton.1 hq]
      exact ⟨_, _, hp⟩
    · rename_i hpresent
      rcases List.mem_cons.1 hq with rfl | hq
      · exact ⟨_, _, hp⟩
      · cases hnext : T (level + 1) (vpn va / 512 ^ (level + 1)) with
        | none =>
          rw [hnext] at he
          exact absurd (Or.inl (by rw [he]; rfl)) hpresent
        | some p' =>
          rw [hnext] at he
          rcases h.page _ _ _ hnext with ⟨ha, hb⟩
          rw [he, entryOf_and_PT_ADDR_MASK ha hb] at hq
          exact ih (by omega) hnext hq

theorem isNode_of_isTable (h : PageTable m root T) {p : Nat} (hp : IsTable m root p) :
    T.IsNode p := by
  rcases hp with ⟨va, hp⟩
  rcases h.page _ _ _ h.root_eq with ⟨ha, hb⟩
  rw [root_and_PT_ADDR_MASK ha hb, PAGE_LEVEL_eq] at hp
  refine h.isNode_of_mem_walkTables (by decide) ?_ hp
  rw [Nat.div_eq_of_lt (vpn_lt va)]
  exact h.root_eq

end PageTable

end HyperBench

import HyperBench.Lib.Reads
import HyperBench.Lib.Ascii
import HyperBench.Smp

/-!
# `x86_64/mp.c`: the multiprocessor tables

The search for the floating pointer structure, the checks on the
configuration table and the loop of `mpinit` over its entries, with `memcmp`
of `lib/string.c`.

A null pointer is the address `0`.  Memory is mapped there, so a function
that goes on with a null pointer reads what is at `0`.

`TableAt` says that memory holds the table of a list of entries, and
`mpinit_table` that `mpinit` then does what the entries say, one after the
other.  `apicids_table` is the list of processors that it leaves.
-/

namespace HyperBench.Mp

open ByteMem Reads Ascii Function Smp

/-! ## The search -/

/-- `memcmp` of the memory at `a` with a constant. -/
def memcmp (a : Nat) : List UInt8 → Reads Int
  | [] => pure 0
  | c :: cs => do
    let b ← byte a
    let ret : Int := b.toNat - c.toNat
    if ret ≠ 0 then pure ret else memcmp (a + 1) cs

/-- The sum is an `int`, and the answer its low byte. -/
def sum (addr len : Nat) : Reads UInt8 := do
  let total ← Reads.forUpTo (fun i total => do
    let b ← byte (addr + i)
    pure (total + b.toNat)) len 0
  pure (UInt8.ofNat total)

/-- `sizeof(struct mp)`. -/
def sizeofMp : Nat := 16

/-- The condition of `mpsearch1` at `p`. -/
def isMp (p : Nat) : Reads Bool := do
  let differ ← memcmp p (ascii "_MP_")
  if differ = 0 then do
    let check ← sum p sizeofMp
    pure (check == 0)
  else pure false

/-- The next `n` rounds of the loop of `mpsearch1`. -/
def mpsearchFrom (p : Nat) : Nat → Reads Nat
  | 0 => pure 0
  | n + 1 => do
    let found ← isMp p
    if found then pure p else mpsearchFrom (p + sizeofMp) n

/-- The loop steps a pointer up to `a + len`, which may wrap around. -/
def mpsearch1 (a len : Nat) : Reads Nat :=
  let e := (a + len) % 2 ^ 64
  mpsearchFrom a ((e - a + (sizeofMp - 1)) / sizeofMp)

/-- The last resort of `mpsearch`. -/
def mpsearchRom : Reads Nat := mpsearch1 0xf0000 0x10000

def mpsearch : Reads Nat := do
  let hi ← byte (0x400 + 0x0f)
  let lo ← byte (0x400 + 0x0e)
  let p := (hi.toNat * 256 + lo.toNat) * 16
  if p ≠ 0 then do
    let mp ← mpsearch1 p 1024
    if mp ≠ 0 then pure mp else mpsearchRom
  else do
    let hi ← byte (0x400 + 0x14)
    let lo ← byte (0x400 + 0x13)
    let p := (hi.toNat * 256 + lo.toNat) * 1024
    let mp ← mpsearch1 ((p + 2 ^ 64 - 1024) % 2 ^ 64) 1024
    if mp ≠ 0 then pure mp else mpsearchRom

/-! ## The configuration table -/

/-- `sizeof(struct mpconf)`. -/
def sizeofMpconf : Nat := 44

/-- `conf->length`. -/
def confLength (conf : Nat) : Reads Nat := field (conf + 4) 2

/-- The checks of `mpconfig` on the table at `conf`. -/
def checkConf (conf : Nat) : Reads Nat := do
  let differ ← memcmp conf (ascii "PCMP")
  if differ ≠ 0 then pure 0 else do
    let version ← byte (conf + 6)
    if version ≠ 1 ∧ version ≠ 4 then pure 0 else do
      let length ← confLength conf
      let check ← sum conf length
      if check ≠ 0 then pure 0 else pure conf

def mpconfig : Reads Nat := do
  let mp ← mpsearch
  if mp = 0 then pure 0 else do
    let physaddr ← field (mp + 4) 4
    if physaddr = 0 then pure 0 else checkConf physaddr

/-! ## `mpinit` -/

def MPPROC : UInt8 := 0x00
def MPBUS : UInt8 := 0x01
def MPIOAPIC : UInt8 := 0x02
def MPIOINTR : UInt8 := 0x03
def MPLINTR : UInt8 := 0x04

/-- `sizeof(struct mpproc)`. -/
def sizeofMpproc : Nat := 20

/-- `sizeof(struct mpioapic)`. -/
def sizeofMpioapic : Nat := 8

/-- The variables that `mpinit` sets, and the texts that were printed. -/
structure Globals where
  lapic : Nat
  /-- `cpus[i].apicid`. -/
  cpus : Nat → UInt8
  ncpu : Nat
  ioapicid : UInt8
  out : List (List UInt8)

namespace Globals

def print (g : Globals) (text : List UInt8) : Globals := { g with out := g.out ++ [text] }

/-- A processor entry. -/
def addCpu (g : Globals) (apicid : UInt8) : Globals :=
  if g.ncpu < NCPU then { g with cpus := update g.cpus g.ncpu apicid, ncpu := g.ncpu + 1 } else g

end Globals

/-- The variables of the loop of `mpinit`. -/
structure Cursor where
  p : Nat
  ismp : Bool
  globals : Globals

/-- One round of the loop.  The `break` of the default case leaves the
`switch` only, so an unknown type is looked at again. -/
def entry (c : Cursor) : Reads Cursor := do
  let type ← byte c.p
  if type = MPPROC then
    if c.globals.ncpu < NCPU then do
      let apicid ← byte (c.p + 1)
      pure { c with p := c.p + sizeofMpproc, globals := c.globals.addCpu apicid }
    else pure { c with p := c.p + sizeofMpproc }
  else if type = MPIOAPIC then do
    let apicno ← byte (c.p + 1)
    pure { c with p := c.p + sizeofMpioapic, globals := { c.globals with ioapicid := apicno } }
  else if type = MPBUS ∨ type = MPIOINTR ∨ type = MPLINTR then
    pure { c with p := c.p + 8 }
  else pure { c with ismp := false }

/-- The answer is `none` when the loop was not left after `fuel` tests. -/
def mpinit (fuel : Nat) (g : Globals) : Reads (Option Globals) := do
  let conf ← mpconfig
  let g := if conf = 0 then g.print (ascii "Expect to run on an SMP") else g
  let lapic ← field (conf + 36) 4
  let length ← confLength conf
  let c ← Reads.whileFuel (fun c => decide (c.p < conf + length)) entry fuel
    ⟨conf + sizeofMpconf, true, { g with lapic := lapic }⟩
  pure (c.map fun c =>
    if c.ismp then c.globals else c.globals.print (ascii "Didn't find a suitable machine"))

/-! ## Texts and checksums -/

/-- `memcmp` answers 0 where memory holds the text. -/
theorem memcmp_val_eq_zero_iff {m : Mem} {a : Nat} {cs : List UInt8} :
    (memcmp a cs).val m = 0 ↔ Holds m a cs := by
  induction cs generalizing a with
  | nil => simp [memcmp, Holds]
  | cons c cs ih =>
    have hbyte : ((m a).toNat - c.toNat : Int) ≠ 0 ↔ m a ≠ c := by
      rw [← UInt8.toNat_inj.ne]
      omega
    rw [memcmp, val_bind, val_byte, holds_cons]
    by_cases hc : m a = c
    · rw [if_neg (by rw [hbyte]; exact not_not.2 hc), ih]
      exact ⟨fun h => ⟨hc, h⟩, And.right⟩
    · rw [if_pos (hbyte.2 hc), val_pure]
      exact ⟨fun h => absurd h (hbyte.2 hc), fun h => absurd h.1 hc⟩

/-- The sum of `n` bytes. -/
def byteSum (m : Mem) (a n : Nat) : Nat := ((List.range n).map fun i => (m (a + i)).toNat).sum

theorem sum_val (m : Mem) (a n : Nat) : (sum a n).val m = UInt8.ofNat (byteSum m a n) := by
  have hloop : ∀ n, (Reads.forUpTo (fun i total => do
      let b ← byte (a + i)
      pure (total + b.toNat)) n 0).val m = byteSum m a n := by
    intro n
    induction n with
    | zero => rfl
    | succ n ih =>
      rw [Reads.forUpTo, val_bind, ih, byteSum, byteSum, List.range_succ, List.map_append,
        List.sum_append]
      rfl
  rw [sum, val_bind, hloop, val_pure]

theorem sum_val_eq_zero_iff {m : Mem} {a n : Nat} :
    (sum a n).val m = 0 ↔ byteSum m a n % 256 = 0 := by
  rw [sum_val, ← UInt8.toNat_inj, UInt8.toNat_ofNat']
  rfl

theorem sum_addrs (m : Mem) (a n : Nat) : (sum a n).addrs m = (List.range n).map (a + ·) := by
  have hloop : ∀ n, (Reads.forUpTo (fun i total => do
      let b ← byte (a + i)
      pure (total + b.toNat)) n 0).addrs m = (List.range n).map (a + ·) := by
    intro n
    induction n with
    | zero => rfl
    | succ n ih =>
      rw [Reads.forUpTo, addrs_bind, ih, List.range_succ, List.map_append]
      rfl
  rw [sum, addrs_bind, hloop, addrs_pure, List.append_nil]

/-- `mpconfig` checks the table that the floating pointer structure names. -/
theorem mpconfig_val (m : Mem) :
    mpconfig.val m = if mpsearch.val m = 0 ∨ load m (mpsearch.val m + 4) 4 = 0 then 0
      else (checkConf (load m (mpsearch.val m + 4) 4)).val m := by
  rw [mpconfig, val_bind, val_ite]
  by_cases hmp : mpsearch.val m = 0
  · rw [if_pos hmp, if_pos (Or.inl hmp), val_pure]
  · rw [if_neg hmp, val_bind, val_field, val_ite, val_pure]
    by_cases hphys : load m (mpsearch.val m + 4) 4 = 0
    · rw [if_pos hphys, if_pos (Or.inr hphys)]
    · rw [if_neg hphys, if_neg (not_or.2 ⟨hmp, hphys⟩)]

/-! ## Well-formed tables -/

/-- The entries of a configuration table, with the bytes that `mpinit` does
not look at. -/
inductive Entry where
  | proc (apicid : UInt8) (rest : Vector UInt8 18)
  | bus (rest : Vector UInt8 7)
  | ioapic (apicno : UInt8) (rest : Vector UInt8 6)
  | iointr (rest : Vector UInt8 7)
  | lintr (rest : Vector UInt8 7)

namespace Entry

def bytes : Entry → List UInt8
  | proc apicid rest => MPPROC :: apicid :: rest.toList
  | bus rest => MPBUS :: rest.toList
  | ioapic apicno rest => MPIOAPIC :: apicno :: rest.toList
  | iointr rest => MPIOINTR :: rest.toList
  | lintr rest => MPLINTR :: rest.toList

/-- What the entry says about the machine. -/
def effect : Entry → Globals → Globals
  | proc apicid _, g => g.addCpu apicid
  | ioapic apicno _, g => { g with ioapicid := apicno }
  | _, g => g

def apicid? : Entry → Option Nat
  | proc apicid _ => some apicid.toNat
  | _ => none

end Entry

/-- The APIC ids of the processor entries, in table order. -/
def procIds (es : List Entry) : List Nat := es.filterMap Entry.apicid?

/-- `mpconfig` accepts the table of the entries `es`, which is at `conf`. -/
structure TableAt (m : Mem) (conf : Nat) (es : List Entry) : Prop where
  accepted : mpconfig.val m = conf
  ne_null : conf ≠ 0
  length_eq : (confLength conf).val m = sizeofMpconf + (es.flatMap Entry.bytes).length
  entries : Holds m (conf + sizeofMpconf) (es.flatMap Entry.bytes)

/-! ## The loop on a well-formed table -/

section Table

variable {m : Mem} {c : Cursor} {g : Globals}

/-- One entry is one round. -/
theorem entry_val {e : Entry} (h : Holds m c.p e.bytes) :
    (entry c).val m = ⟨c.p + e.bytes.length, c.ismp, e.effect c.globals⟩ := by
  have htype : ∀ b bs, e.bytes = b :: bs → m c.p = b := fun b bs he => h 0 b (by rw [he]; rfl)
  have hnext : ∀ b b' bs, e.bytes = b :: b' :: bs → m (c.p + 1) = b' :=
    fun b b' bs he => h 1 b' (by rw [he]; rfl)
  rw [entry, val_bind, val_byte]
  cases e with
  | proc apicid rest =>
    rw [htype _ _ rfl, if_pos rfl]
    by_cases hroom : c.globals.ncpu < NCPU
    · rw [if_pos hroom, val_bind, val_byte, hnext _ _ _ rfl]
      simp [Entry.bytes, Entry.effect, sizeofMpproc]
    · rw [if_neg hroom]
      simp [Entry.bytes, Entry.effect, sizeofMpproc, Globals.addCpu, hroom]
  | ioapic apicno rest =>
    rw [htype _ _ rfl, if_neg (by decide), if_pos rfl, val_bind, val_byte, hnext _ _ _ rfl]
    simp [Entry.bytes, Entry.effect, sizeofMpioapic]
  | bus rest | iointr rest | lintr rest =>
    rw [htype _ _ rfl, if_neg (by decide), if_neg (by decide), if_pos (by decide)]
    simp [Entry.bytes, Entry.effect]

theorem Entry.bytes_length_pos (e : Entry) : 0 < e.bytes.length := by
  cases e <;> simp [Entry.bytes]

theorem entries_val {es : List Entry} {fuel e : Nat} (hfuel : es.length < fuel)
    (h : Holds m c.p (es.flatMap Entry.bytes)) (he : e = c.p + (es.flatMap Entry.bytes).length) :
    Loop.whileFuel (fun c => decide (c.p < e)) (fun c => (entry c).val m) fuel c
      = some ⟨e, c.ismp, es.foldl (fun g e => e.effect g) c.globals⟩ := by
  induction es generalizing c fuel with
  | nil =>
    rcases fuel with _ | fuel
    · exact absurd hfuel (by simp)
    · rw [Loop.whileFuel_of_false (by simp [he])]
      simp [he]
  | cons x es ih =>
    rcases fuel with _ | fuel
    · exact absurd hfuel (by simp)
    · rw [List.flatMap_cons] at h he
      rw [List.length_append] at he
      have hpos := x.bytes_length_pos
      rw [Loop.whileFuel_of_true (by simp only [decide_eq_true_eq]; omega), entry_val h.append.1]
      exact ih (by simpa using hfuel) h.append.2 (by rw [he, Nat.add_assoc])

/-- `mpinit` does what the entries say. -/
theorem mpinit_table {conf fuel : Nat} {es : List Entry} (h : TableAt m conf es)
    (hfuel : es.length < fuel) :
    (mpinit fuel g).val m
      = some (es.foldl (fun g e => e.effect g) { g with lapic := load m (conf + 36) 4 }) := by
  unfold mpinit
  simp only [val_bind, val_pure, val_field, val_whileFuel]
  rw [h.accepted, if_neg h.ne_null, h.length_eq, ← Nat.add_assoc]
  have hloop := entries_val (c := ⟨conf + sizeofMpconf, true,
    { g with lapic := load m (conf + 36) 4 }⟩) hfuel h.entries rfl
  rw [hloop]
  rfl

end Table

/-! ## The processors -/

/-- The ids in the part of `cpus` that is in use. -/
def Globals.apicids (g : Globals) : List Nat := (List.range g.ncpu).map fun i => (g.cpus i).toNat

theorem Globals.apicids_length (g : Globals) : g.apicids.length = g.ncpu := by
  simp [apicids]

theorem Globals.apicids_addCpu (g : Globals) (apicid : UInt8) (hle : g.ncpu ≤ NCPU) :
    (g.addCpu apicid).apicids = (g.apicids ++ [apicid.toNat]).take NCPU := by
  have hlen := g.apicids_length
  unfold addCpu
  by_cases hroom : g.ncpu < NCPU
  · rw [if_pos hroom, List.take_of_length_le (by simp; omega)]
    show (List.range (g.ncpu + 1)).map (fun i => (update g.cpus g.ncpu apicid i).toNat) = _
    rw [List.range_succ, List.map_append, List.map_singleton, update_self]
    congr 1
    apply List.map_congr_left
    intro i hi
    have hlt := List.mem_range.1 hi
    rw [update_of_ne (by omega)]
  · rw [if_neg hroom, List.take_append_of_le_length (by omega), List.take_of_length_le (by omega)]

theorem Globals.addCpu_ncpu_le {g : Globals} (apicid : UInt8) (hle : g.ncpu ≤ NCPU) :
    (g.addCpu apicid).ncpu ≤ NCPU := by
  unfold addCpu
  split
  · assumption
  · exact hle

theorem take_take_append (n : Nat) (l l' : List Nat) :
    (l.take n ++ l').take n = (l ++ l').take n := by
  rcases Nat.le_total l.length n with hle | hle
  · rw [List.take_of_length_le hle]
  · rw [List.take_append_of_le_length (by simp [hle]), List.take_append_of_le_length hle,
      List.take_take, Nat.min_self]

/-- The processors that the table leaves: the listed ones, up to `NCPU`. -/
theorem apicids_table (es : List Entry) {g : Globals} (hle : g.ncpu ≤ NCPU) :
    (es.foldl (fun g e => e.effect g) g).apicids = (g.apicids ++ procIds es).take NCPU := by
  induction es generalizing g with
  | nil =>
    rw [List.foldl_nil, procIds, List.filterMap_nil, List.append_nil,
      List.take_of_length_le (by rw [g.apicids_length]; exact hle)]
  | cons e es ih =>
    rw [List.foldl_cons]
    cases e with
    | proc apicid rest =>
      show (es.foldl (fun g e => e.effect g) (g.addCpu apicid)).apicids = _
      rw [ih (Globals.addCpu_ncpu_le apicid hle), g.apicids_addCpu apicid hle]
      show _ = (g.apicids ++ apicid.toNat :: procIds es).take NCPU
      rw [take_take_append, List.append_assoc, List.singleton_append]
    | bus rest | ioapic _ rest | iointr rest | lintr rest => exact ih hle

/-- The variables before `mpinit`. -/
def Globals.start : Globals := ⟨0, fun _ => 0, 0, 0, []⟩

theorem ncpu_le_effect (e : Entry) (g : Globals) : g.ncpu ≤ (e.effect g).ncpu := by
  cases e with
  | proc apicid rest =>
    show g.ncpu ≤ (g.addCpu apicid).ncpu
    unfold Globals.addCpu
    split
    · exact Nat.le_succ _
    · exact Nat.le_refl _
  | bus rest | ioapic _ rest | iointr rest | lintr rest => exact Nat.le_refl _

theorem ncpu_le_table (es : List Entry) (g : Globals) :
    g.ncpu ≤ (es.foldl (fun g e => e.effect g) g).ncpu := by
  induction es generalizing g with
  | nil => exact Nat.le_refl _
  | cons e es ih => exact (ncpu_le_effect e g).trans (ih _)

/-- The entries of `cpus` that no processor entry has filled are as before. -/
theorem cpus_unfilled (es : List Entry) (g : Globals) {i : Nat}
    (hi : (es.foldl (fun g e => e.effect g) g).ncpu ≤ i) :
    (es.foldl (fun g e => e.effect g) g).cpus i = g.cpus i := by
  induction es generalizing g with
  | nil => rfl
  | cons e es ih =>
    have hncpu := (ncpu_le_table es (e.effect g)).trans hi
    rw [List.foldl_cons] at hi ⊢
    rw [ih _ hi]
    cases e with
    | proc apicid rest =>
      change (g.addCpu apicid).ncpu ≤ i at hncpu
      show (g.addCpu apicid).cpus i = g.cpus i
      unfold Globals.addCpu at hncpu ⊢
      split
      · rename_i hroom
        rw [if_pos hroom] at hncpu
        exact update_of_ne (Nat.ne_of_gt hncpu) _ _
      · rfl
    | bus rest | ioapic _ rest | iointr rest | lintr rest => rfl

/-- An entry of `cpus` that no processor entry has filled is zero. -/
theorem cpus_table (es : List Entry) {g : Globals} (hzero : ∀ i, g.ncpu ≤ i → g.cpus i = 0) :
    ∀ i, (es.foldl (fun g e => e.effect g) g).ncpu ≤ i →
      (es.foldl (fun g e => e.effect g) g).cpus i = 0 := by
  intro i hi
  rw [cpus_unfilled es g hi]
  exact hzero i ((ncpu_le_table es g).trans hi)

theorem Globals.apicids_getD {g : Globals} (hzero : ∀ i, g.ncpu ≤ i → g.cpus i = 0) (i : Nat) :
    g.apicids.getD i 0 = (g.cpus i).toNat := by
  rw [List.getD_eq_getElem?_getD, apicids, List.getElem?_map]
  rcases Nat.lt_or_ge i g.ncpu with hi | hi
  · rw [List.getElem?_range hi]
    rfl
  · rw [List.getElem?_eq_none (by simpa using hi), hzero i hi]
    rfl

/-! ## Tables in the BIOS ROM -/

/-- A floating pointer structure that points behind itself at `0xf0010`, and
the header of a table there.  The parameters are the low byte of the length
and the checksum of the table. -/
def romHeader (length checksum : UInt8) : List UInt8 :=
  ascii "_MP_" ++ [0x10, 0x00, 0x0f, 0x00, 0x01, 0x04, 0x81, 0, 0, 0, 0, 0] ++
    ascii "PCMP" ++ [length, 0x00, 0x04, checksum] ++ List.replicate 28 0 ++
    [0x00, 0x00, 0xe0, 0xfe, 0, 0, 0, 0]

/-- A memory with the header at `0xf0000` and the entries behind it. -/
def romTable (length checksum : UInt8) (entries : List UInt8) : Mem := fun a =>
  if 0xf0000 ≤ a then (romHeader length checksum ++ entries).getD (a - 0xf0000) 0 else 0

/-- What stands behind the header. -/
theorem holds_rom (header rest : List UInt8) :
    Holds (fun a => if 0xf0000 ≤ a then (header ++ rest).getD (a - 0xf0000) 0 else 0)
      (0xf0000 + header.length) rest := by
  intro i b hb
  have habove : 0xf0000 ≤ 0xf0000 + header.length + i := by omega
  have hindex : 0xf0000 + header.length + i - 0xf0000 = header.length + i := by omega
  dsimp only
  rw [if_pos habove, hindex, List.getD_eq_getElem?_getD,
    List.getElem?_append_right (Nat.le_add_right _ _), Nat.add_sub_cancel_left, hb]
  rfl

end HyperBench.Mp

import HyperBench.BootTable
import HyperBench.Lib.Modes

/-!
# The way into 64-bit mode

`cstart.S` takes a processor from its start-up interrupt to `ap_start64`:
`sipi_entry` in real mode, `ap_start32` with a stack of its own, and
`prepare_64`, which turns on paging and long mode.  The instructions are those of
the source, on the machine of `Lib.Modes` with the page walk of `Page`.

Other processors run at the same time and share memory.

* `Rely` is what the code needs of memory at each moment: the tables of the
  image, and a stack, which is first the one that `smp_stacktop` names and then
  its own.
* `Guar` is what an instruction does to memory.
* `Safe n w c` says that `n` more instructions lead to `ap_start64`, each one in
  any memory that it can rely on.  There is a lemma for each part of the code, and
  `safe_start` puts them together.
-/

namespace HyperBench.LongMode

open BitField ByteMem Function Modes

/-! ## The image -/

/-- The addresses that the linker gives to the symbols of `cstart.S`, and the
offset `gdt32_descr - sipi_entry`. -/
structure Symbols where
  descr : Nat
  gdt32 : Nat
  gdt64Desc : Nat
  gdt64 : Nat
  ptRoot : Nat
  ptl2 : Nat
  smpStacktop : Nat
  prepare64 : Nat
  apStart32 : Nat
  apStart64 : Nat

/-- The bytes that the code reads: the page 0 with the copy of `sipi_entry`, the
tables of segments and the page tables. -/
def Symbols.Fixed (L : Symbols) (x : Nat) : Prop :=
  x < 0x1000 ∨ InRange L.gdt32 24 x ∨ InRange L.gdt64Desc 10 x ∨ InRange L.gdt64 128 x ∨
    InRange L.ptRoot 8 x ∨ BootPage L.ptl2 x

/-- The image is linked above the memory of the stacks and below 4 GB. -/
structure Layout extends Symbols where
  descr_le : descr + 6 ≤ 0x1000
  fixed : ∀ x, toSymbols.Fixed x →
    (x < 0x1000 ∨ 0xa0000 ≤ x) ∧ (x < smpStacktop ∨ smpStacktop + 4 ≤ x) ∧ x < 2 ^ 32
  smpStacktop_ge : 0xa0000 ≤ smpStacktop
  smpStacktop_le : smpStacktop + 4 ≤ 2 ^ 32

/-- SEG_KDATA -/
def SEG_KDATA : Nat := 2

def sipiEntry (L : Symbols) : List Instr :=
  [.movFromCr .cr0 .eax, .orImm 1 .eax, .movToCr .eax .cr0, .lgdt L.descr, .ljmp 8 L.apStart32]

def apStart32 (L : Symbols) : List Instr :=
  [.movAx (SEG_KDATA <<< 3), .movSeg .ds, .movSeg .es, .movSeg .fs, .movSeg .gs, .movSeg .ss,
    .movImm (2 ^ 32 - 4096) .esp, .lockXadd .esp L.smpStacktop, .call L.prepare64,
    .ljmp 8 L.apStart64]

def prepare64 (L : Symbols) : List Instr :=
  [.lgdt L.gdt64Desc, .movFromCr .cr4 .eax, .bts 5 .eax, .movToCr .eax .cr4, .load L.ptRoot .eax,
    .movToCr .eax .cr3, .movImm EFER .ecx, .rdmsr, .bts 8 .eax, .wrmsr, .movFromCr .cr0 .eax,
    .bts 0 .eax, .bts 31 .eax, .movToCr .eax .cr0, .ret]

def gdt32 : List Nat := [0, 0x00cf9b000000ffff, 0x00cf93000000ffff]

def gdt64 : List Nat :=
  [0, 0x00af9b000000ffff, 0x00cf93000000ffff, 0x00af1b000000ffff, 0x00cf9b000000ffff,
    0x008f9b000000ffff, 0x008f93000000ffff, 0x00cffb000000ffff, 0x00cff3000000ffff,
    0x00affb000000ffff, 0x00cf92000000ffff, 0, 0, 0, 0, 0]

/-- Memory has the words `ws` at `a`. -/
def Words (m : Mem) (a : Nat) (ws : List Nat) : Prop :=
  ∀ i w, ws[i]? = some w → load m (a + 8 * i) 8 = w

/-- What memory holds at the symbols.  `lgdt` and `mov` read the low four bytes
of the addresses. -/
structure Image (L : Symbols) (m : Mem) : Prop where
  descr : load m L.descr 2 = 8 * gdt32.length - 1 ∧ load m (L.descr + 2) 4 = L.gdt32
  gdt32 : Words m L.gdt32 gdt32
  gdt64Desc : load m L.gdt64Desc 2 = 8 * gdt64.length - 1 ∧ load m (L.gdt64Desc + 2) 4 = L.gdt64
  gdt64 : Words m L.gdt64 gdt64
  ptRoot : load m L.ptRoot 4 = ptl4 L.ptl2
  tables : BootTables m L.ptl2

theorem Image.frame {L : Layout} {m m' : Mem} (h : Image L.toSymbols m)
    (hm : ∀ x, L.Fixed x → m' x = m x) : Image L.toSymbols m' := by
  have hload : ∀ a n, (∀ x, a ≤ x → x < a + n → L.Fixed x) → load m' a n = load m a n :=
    fun a n ha => load_congr fun x hx hx' => hm x (ha x hx hx')
  have hdescr := L.descr_le
  refine ⟨⟨?_, ?_⟩, fun i w hw => ?_, ⟨?_, ?_⟩, fun i w hw => ?_, ?_, h.tables.frame fun x hx => ?_⟩
  · rw [hload _ _ fun x hx hx' => .inl (by omega)]
    exact h.descr.1
  · rw [hload _ _ fun x hx hx' => .inl (by omega)]
    exact h.descr.2
  · have hi : i < 3 := (List.getElem?_eq_some_iff.1 hw).1
    rw [hload _ _ fun x hx hx' => .inr (.inl (by unfold InRange; omega))]
    exact h.gdt32 i w hw
  · rw [hload _ _ fun x hx hx' => .inr (.inr (.inl (by unfold InRange; omega)))]
    exact h.gdt64Desc.1
  · rw [hload _ _ fun x hx hx' => .inr (.inr (.inl (by unfold InRange; omega)))]
    exact h.gdt64Desc.2
  · have hi : i < 16 := (List.getElem?_eq_some_iff.1 hw).1
    rw [hload _ _ fun x hx hx' => .inr (.inr (.inr (.inl (by unfold InRange; omega))))]
    exact h.gdt64 i w hw
  · rw [hload _ _ fun x hx hx' => .inr (.inr (.inr (.inr (.inl (by unfold InRange; omega)))))]
    exact h.ptRoot
  · exact hm x (.inr (.inr (.inr (.inr (.inr hx)))))

/-! ## The processor -/

/-- A processor with the loaded program and the page walk of `Page`. -/
def processor (program : CodeSize → Nat → Option (Instr × Nat)) : Processor where
  program := program
  walk m cr3 va := (walk m cr3 va).map fun t => (t.phys, t.writable)

/-- The program is the code of `cstart.S`, with `sipi_entry` at the address 0,
where `sipi_entry_mov` has put it. -/
structure Loaded (program : CodeSize → Nat → Option (Instr × Nat)) (L : Symbols) : Prop where
  sipi : Code (processor program) .bits16 0 (sipiEntry L) 0x1000
  ap : Code (processor program) .bits32 L.apStart32 (apStart32 L) (2 ^ 32)
  prepare : Code (processor program) .bits32 L.prepare64 (prepare64 L) (2 ^ 32)

def realCode : Segment := ⟨0, 0xffff, 0, true, true, false, false⟩

def realData : Segment := ⟨0, 0xffff, 0, false, true, false, false⟩

def flatCode : Segment := ⟨0, 2 ^ 32 - 1, 0, true, true, false, true⟩

def flatData : Segment := ⟨0, 2 ^ 32 - 1, 0, false, true, false, true⟩

def longCode : Segment := ⟨0, 2 ^ 32 - 1, 0, true, true, true, false⟩

/-- A processor behind its start-up interrupt with the vector 0. -/
structure AfterSipi (c : Core) : Prop where
  eip : c.eip = 0
  cs : c.cs = realCode
  ds : c.seg .ds = realData
  real : c.isProtected = false
  noPaging : c.paging = false
  /-- Not write-through needs the cache to be off. -/
  cache : (c.cr .cr0).testBit 29 → (c.cr .cr0).testBit 30
  la57 : c.la57 = false
  lma : c.lma = false

/-- The processor `c₀` has come to `ap_start64` with the stack that ends at
`top`. -/
structure Entered (L : Symbols) (c₀ c : Core) (top : Nat) : Prop where
  eip : c.eip = L.apStart64
  size : c.codeSize = .bits64
  esp : c.reg .esp = top
  cr0 : c.cr .cr0 = c₀.cr .cr0 ||| 1 ||| 2 ^ 31
  cr3 : c.cr .cr3 = ptl4 L.ptl2
  cr4 : c.cr .cr4 = c₀.cr .cr4 ||| 2 ^ 5
  /-- LME and LMA are set, and the other bits are as before. -/
  efer : ∀ i, c.efer.testBit i = (decide (i = 8 ∨ i = 10) || c₀.efer.testBit i)
  gdt : c.gdtBase = L.gdt64 ∧ c.gdtLimit = 127
  cs : c.cs = longCode
  seg : ∀ r, c.seg r = flatData

/-! ## What the processor relies on -/

/-- What the processor owns of memory. -/
inductive Own where
  | none
  | stack (top : Nat)
  /-- The return address stands on the stack. -/
  | call (top ret : Nat)

/-- A stack lies between the page 0 and the memory of the devices. -/
def IsStack (top : Nat) : Prop := 0x2000 ≤ top ∧ top ≤ 0xa0000

def Own.Holds (L : Symbols) : Own → Mem → Prop
  | .none, m => IsStack (load m L.smpStacktop 4)
  | .stack top, _ => IsStack top
  | .call top ret, m => IsStack top ∧ load m (top - 4) 4 = ret

def Rely (L : Symbols) (w : Own) (m : Mem) : Prop := Image L m ∧ w.Holds L m

def isLocked : Instr → Bool
  | .lockXadd _ _ => true
  | _ => false

/-- What one instruction does to memory: `Guar L i w m c w' m'` when it leaves the
processor in `c`. -/
inductive Guar (L : Symbols) : Instr → Own → Mem → Core → Own → Mem → Prop where
  | quiet {i : Instr} {w : Own} {m : Mem} {c : Core} (hi : isLocked i = false) :
      Guar L i w m c w m
  | take {r : Reg} {a : Nat} {m : Mem} {c : Core} (hesp : c.reg .esp = load m L.smpStacktop 4) :
      Guar L (.lockXadd r a) .none m c (.stack (load m L.smpStacktop 4))
        (store m L.smpStacktop 4 ((load m L.smpStacktop 4 + (2 ^ 32 - 4096)) % 2 ^ 32))
  | push {a top ret : Nat} {m : Mem} {c : Core} (hret : ret < 2 ^ 32) :
      Guar L (.call a) (.stack top) m c (.call top ret) (store m (top - 4) 4 ret)

theorem Rely.guar {L : Layout} {i : Instr} {w w' : Own} {m m' : Mem} {c : Core}
    (h : Rely L.toSymbols w m) (hguar : Guar L.toSymbols i w m c w' m') :
    Rely L.toSymbols w' m' := by
  obtain ⟨himage, hown⟩ := h
  cases hguar with
  | quiet => exact ⟨himage, hown⟩
  | take =>
    refine ⟨himage.frame fun x hx => store_apply_of_outside ?_, hown⟩
    exact (L.fixed x hx).2.1
  | push hret =>
    refine ⟨himage.frame fun x hx => store_apply_of_outside ?_, hown, ?_⟩
    · have hx := (L.fixed x hx).1
      unfold Own.Holds IsStack at hown
      omega
    · rw [load_store_same]
      exact Nat.mod_eq_of_lt hret

/-- From `c` the processor comes to `ap_start64` with `n` more instructions,
whatever happens to the rest of memory in between. -/
def Safe (P : Processor) (L : Symbols) (c₀ : Core) : Nat → Own → Core → Prop
  | 0, w, c => ∃ top ret, w = .call top ret ∧ Entered L c₀ c top
  | n + 1, w, c => ∀ m, Rely L w m → ∃ i c' m' w', P.exec c m = some (i, c', m') ∧
      Guar L i w m c' w' m' ∧ Safe P L c₀ n w' c'

/-! ## Single instructions -/

/-- Code of the segment `cs` that ends in front of `b`. -/
structure Runs (cs : Segment) (size : CodeSize) (b : Nat) : Prop where
  size_eq : ∀ c : Core, c.cs = cs → c.codeSize = size
  size_ne : size ≠ .bits64
  base : cs.base = 0
  limit : b ≤ cs.limit + 1
  low : b ≤ 2 ^ 32

theorem runs_real : Runs realCode .bits16 0x1000 := by
  refine ⟨fun c hc => ?_, by decide, rfl, by decide, by decide⟩
  rw [Core.codeSize, hc]
  simp [realCode]

theorem runs_flat : Runs flatCode .bits32 (2 ^ 32) := by
  refine ⟨fun c hc => ?_, by decide, rfl, by decide, by decide⟩
  rw [Core.codeSize, hc]
  simp [flatCode]

section Steps

variable {program : CodeSize → Nat → Option (Instr × Nat)} {L : Layout} {c₀ c : Core}
  {cs : Segment} {size : CodeSize} {b n : Nat} {i : Instr} {is : List Instr} {w : Own}

theorem safe_step (hruns : Runs cs size b) (hcs : c.cs = cs)
    (hcode : Code (processor program) size c.eip (i :: is) b)
    (hid : ∀ m, Rely L.toSymbols w m → Direct (processor program) c m)
    (hnext : ∀ a, Code (processor program) size a is b → ∀ m, Rely L.toSymbols w m →
      ∃ c' m' w', (processor program).perform (c.goto a) m i = some (c', m') ∧
        Guar L.toSymbols i w m c' w' m' ∧ Safe (processor program) L.toSymbols c₀ n w' c') :
    Safe (processor program) L.toSymbols c₀ (n + 1) w c := by
  have hsize := hruns.size_eq c hcs
  have hat : At (processor program) c (i :: is) b :=
    ⟨hsize ▸ hcode, hsize ▸ hruns.size_ne, hcs ▸ hruns.base, hcs ▸ hruns.limit, hruns.low⟩
  obtain ⟨a, hrest, hexec⟩ := hat.exec
  intro m hm
  obtain ⟨c', m', w', hperform, hguar, hsafe⟩ := hnext a (hsize ▸ hrest) m hm
  refine ⟨i, c', m', w', ?_, hguar, hsafe⟩
  rw [hexec m (hid m hm), hperform]
  rfl

end Steps

/-! ## Instructions with operands -/

theorem segmentOf_flatCode : segmentOf 0x00cf9b000000ffff = some flatCode := by decide +kernel

theorem segmentOf_flatData : segmentOf 0x00cf93000000ffff = some flatData := by decide +kernel

theorem segmentOf_longCode : segmentOf 0x00af9b000000ffff = some longCode := by decide +kernel

/-- The boot tables send the addresses of 32 bits to themselves. -/
theorem direct_of_tables {program : CodeSize → Nat → Option (Instr × Nat)} {m : Mem}
    {ptl2 e efer gb gl : Nat} {reg : Reg → Nat} {cr : Cr → Nat} {cs : Segment}
    {seg : SegReg → Segment} (h : BootTables m ptl2) (hp : (cr .cr0).testBit 31 = true)
    (hlma : efer.testBit 10 = true) (hla57 : (cr .cr4).testBit 12 = false)
    (hcr3 : cr .cr3 = ptl4 ptl2) :
    Direct (processor program) ⟨e, reg, cr, efer, gb, gl, cs, seg⟩ m := by
  have hpaging : Core.paging ⟨e, reg, cr, efer, gb, gl, cs, seg⟩ = true := hp
  have hlong : Core.lma ⟨e, reg, cr, efer, gb, gl, cs, seg⟩ = true := hlma
  have hfour : Core.la57 ⟨e, reg, cr, efer, gb, gl, cs, seg⟩ = false := hla57
  intro write x hx
  have hwalk : (processor program).walk m (cr .cr3) x = some (x, true) := by
    show (walk m (cr .cr3) x).map _ = _
    rw [hcr3, h.walk_eq hx, Option.map_some]
  rw [Processor.phys, hpaging, hlong, hfour, hwalk]
  simp

/-! ## Bits of the control registers -/

theorem testBit_or_two_pow (v i : Nat) : (v ||| 2 ^ i).testBit i = true := by
  rw [Nat.testBit_or, Nat.testBit_two_pow_self, Bool.or_true]

theorem AfterSipi.paging_off {c : Core} (hc : AfterSipi c) :
    (c.cr .cr0 ||| 1).testBit 31 = false := by
  have hp : (c.cr .cr0).testBit 31 = false := hc.noPaging
  rw [Nat.testBit_or, hp]
  decide

theorem cache_or {v k : Nat} (h : v.testBit 29 → v.testBit 30) (hk : k.testBit 29 = false) :
    (v ||| k).testBit 29 → (v ||| k).testBit 30 := by
  rw [Nat.testBit_or, Nat.testBit_or, hk, Bool.or_false]
  exact fun hv => by rw [h hv, Bool.true_or]

/-! ## The blocks -/

section Blocks

variable {program : CodeSize → Nat → Option (Instr × Nat)} {L : Layout} {c₀ : Core}
  {cs : Segment} {size : CodeSize} {b n e efer gb gl : Nat} {i : Instr} {is : List Instr} {w : Own}
  {reg : Reg → Nat} {cr : Cr → Nat} {seg : SegReg → Segment} {r : Reg} {v : Nat}

/-- An instruction that leaves memory alone, with paging off. -/
theorem safe_quiet (hruns : Runs cs size b) (hcode : Code (processor program) size e (i :: is) b)
    (hp : (cr .cr0).testBit 31 = false) (hi : isLocked i = false) {f : Nat → Core}
    (hperform : ∀ a m, Rely L.toSymbols w m →
      (processor program).perform ⟨a, reg, cr, efer, gb, gl, cs, seg⟩ m i = some (f a, m))
    (hrest : ∀ a, Code (processor program) size a is b →
      Safe (processor program) L.toSymbols c₀ n w (f a)) :
    Safe (processor program) L.toSymbols c₀ (n + 1) w ⟨e, reg, cr, efer, gb, gl, cs, seg⟩ := by
  refine safe_step hruns rfl hcode (fun m _ => direct_of_no_paging hp m) fun a ha m hm => ?_
  exact ⟨f a, m, w, hperform a m hm, .quiet hi, hrest a ha⟩

/-- An instruction that sets a register. -/
theorem safe_setReg (hruns : Runs cs size b) (hcode : Code (processor program) size e (i :: is) b)
    (hp : (cr .cr0).testBit 31 = false) (hi : isLocked i = false) (r : Reg) (v : Nat)
    (hperform : ∀ a m, Rely L.toSymbols w m →
      (processor program).perform ⟨a, reg, cr, efer, gb, gl, cs, seg⟩ m i
        = some (⟨a, update reg r v, cr, efer, gb, gl, cs, seg⟩, m))
    (hrest : ∀ a reg', reg' r = v → (∀ q, q ≠ r → reg' q = reg q) →
      Code (processor program) size a is b →
        Safe (processor program) L.toSymbols c₀ n w ⟨a, reg', cr, efer, gb, gl, cs, seg⟩) :
    Safe (processor program) L.toSymbols c₀ (n + 1) w ⟨e, reg, cr, efer, gb, gl, cs, seg⟩ :=
  safe_quiet hruns hcode hp hi hperform fun a ha =>
    hrest a _ (update_self ..) (fun _ hq => update_of_ne hq ..) ha

theorem safe_bts {j : Nat} (hruns : Runs cs size b)
    (hcode : Code (processor program) size e (.bts j r :: is) b)
    (hp : (cr .cr0).testBit 31 = false) (hv : reg r = v)
    (hrest : ∀ a reg', reg' r = v ||| 2 ^ j → (∀ q, q ≠ r → reg' q = reg q) →
      Code (processor program) size a is b →
        Safe (processor program) L.toSymbols c₀ n w ⟨a, reg', cr, efer, gb, gl, cs, seg⟩) :
    Safe (processor program) L.toSymbols c₀ (n + 1) w ⟨e, reg, cr, efer, gb, gl, cs, seg⟩ := by
  refine safe_setReg hruns hcode hp rfl r (v ||| 2 ^ j) (fun a m _ => ?_) hrest
  rw [← hv]
  rfl

theorem gdt32_le (L : Layout) : L.gdt32 + 24 ≤ 2 ^ 32 := by
  have hlast := (L.fixed (L.gdt32 + 23) (.inr (.inl (by unfold InRange; omega)))).2.2
  omega

theorem apStart32_lt (hload : Loaded program L.toSymbols) : L.apStart32 < 2 ^ 32 := by
  obtain ⟨k, hk, _, hcode⟩ := hload.ap
  have hle := hcode.le
  omega

theorem prepare64_lt (hload : Loaded program L.toSymbols) : L.prepare64 < 2 ^ 32 := by
  obtain ⟨k, hk, _, hcode⟩ := hload.prepare
  have hle := hcode.le
  omega

/-- `sipi_entry` -/
theorem safe_sipi (hload : Loaded program L.toSymbols) (hc : AfterSipi c₀)
    (hrest : ∀ reg cr, cr .cr0 = c₀.cr .cr0 ||| 1 → (∀ q, q ≠ .cr0 → cr q = c₀.cr q) →
      Safe (processor program) L.toSymbols c₀ n .none ⟨L.apStart32, reg, cr,
        insert c₀.efer 10 1 0, L.gdt32, 23, flatCode, c₀.seg⟩) :
    Safe (processor program) L.toSymbols c₀ (n + 5) .none c₀ := by
  have hp : (c₀.cr .cr0).testBit 31 = false := hc.noPaging
  have hp₁ := hc.paging_off
  have hpe₁ : (c₀.cr .cr0 ||| 1).testBit 0 = true := testBit_or_two_pow _ 0
  have hcache₁ : (c₀.cr .cr0 ||| 1).testBit 29 → (c₀.cr .cr0 ||| 1).testBit 30 :=
    cache_or hc.cache (by decide)
  have hcore : c₀ = ⟨0, c₀.reg, c₀.cr, c₀.efer, c₀.gdtBase, c₀.gdtLimit, realCode, c₀.seg⟩ := by
    rw [← hc.eip, ← hc.cs]
  refine (congrArg (Safe (processor program) L.toSymbols c₀ (n + 5) .none) hcore).mpr ?_
  refine safe_setReg runs_real hload.sipi hp rfl .eax (c₀.cr .cr0) (fun _ _ _ => rfl)
    fun a₁ reg₁ heax₁ _ h₁ => ?_
  refine safe_setReg runs_real h₁ hp rfl .eax (c₀.cr .cr0 ||| 1) (fun a m _ => ?_)
    fun a₂ reg₂ heax₂ _ h₂ => ?_
  · rw [← heax₁]
    rfl
  -- protection is on, and the code segment is still the one of real mode
  refine safe_quiet runs_real h₂ hp rfl (fun a m _ => perform_movToCr0 heax₂ (fun _ => hpe₁) hcache₁
    fun h => absurd (hp₁.symm.trans h) (by decide)) fun a₃ h₃ => ?_
  rw [hp₁]
  have hcr0 : update c₀.cr .cr0 (c₀.cr .cr0 ||| 1) .cr0 = c₀.cr .cr0 ||| 1 := update_self ..
  have hcr : ∀ q, q ≠ .cr0 → update c₀.cr .cr0 (c₀.cr .cr0 ||| 1) q = c₀.cr q :=
    fun q hq => update_of_ne hq ..
  generalize update c₀.cr .cr0 (c₀.cr .cr0 ||| 1) = cr at hcr0 hcr h₃ ⊢
  rw [← hcr0] at hp₁ hpe₁
  have hdescr := L.descr_le
  have hgdt := gdt32_le L
  have hap := apStart32_lt hload
  have hlow : L.descr + 6 ≤ realData.limit + 1 := show L.descr + 6 ≤ 0xffff + 1 by omega
  have hlimit : L.apStart32 ≤ flatCode.limit := show L.apStart32 ≤ 2 ^ 32 - 1 by omega
  refine safe_quiet runs_real h₃ hp₁ rfl (fun a m hm => perform_lgdt (direct_of_no_paging hp₁ m)
    hc.ds rfl rfl hlow (by omega) hm.1.descr.1 hm.1.descr.2) fun a₄ h₄ => ?_
  exact safe_quiet runs_real h₄ hp₁ rfl (fun a m hm => perform_ljmp (direct_of_no_paging hp₁ m) hpe₁
    (by decide) (by omega) (hm.1.gdt32 1 _ rfl) segmentOf_flatCode rfl rfl rfl
    (fun h => absurd h.2 (by decide)) (.inl hlimit)) fun _ _ => hrest reg₂ cr hcr0 hcr

theorem selector_eq (v : Nat) : insert v 0 16 16 % 2 ^ 16 = 16 := by
  have h := extract_insert_same v 0 16 16
  rwa [extract, Nat.shiftRight_zero] at h

theorem safe_movSeg {r : SegReg}
    (hcode : Code (processor program) .bits32 e (.movSeg r :: is) (2 ^ 32))
    (hprot : (cr .cr0).testBit 0 = true) (hp : (cr .cr0).testBit 31 = false)
    (heax : reg .eax % 2 ^ 16 = 16)
    (hrest : ∀ a, Code (processor program) .bits32 a is (2 ^ 32) →
      Safe (processor program) L.toSymbols c₀ n w
        ⟨a, reg, cr, efer, L.gdt32, 23, flatCode, update seg r flatData⟩) :
    Safe (processor program) L.toSymbols c₀ (n + 1) w
      ⟨e, reg, cr, efer, L.gdt32, 23, flatCode, seg⟩ :=
  safe_quiet runs_flat hcode hp rfl (fun _ m hm => perform_movSeg (direct_of_no_paging hp m) hprot
    heax (Nat.le_refl 23) (gdt32_le L) (hm.1.gdt32 2 _ rfl) segmentOf_flatData rfl rfl rfl rfl r)
    hrest

/-- The `xaddl` takes the stack that the word names, and leaves the one below. -/
theorem safe_take (hcode : Code (processor program) .bits32 e
      (.lockXadd .esp L.smpStacktop :: is) (2 ^ 32))
    (hp : (cr .cr0).testBit 31 = false) (hesp : reg .esp = 2 ^ 32 - 4096)
    (hrest : ∀ a top reg', IsStack top → reg' .esp = top →
      Code (processor program) .bits32 a is (2 ^ 32) →
        Safe (processor program) L.toSymbols c₀ n (.stack top)
          ⟨a, reg', cr, efer, gb, gl, flatCode, fun _ => flatData⟩) :
    Safe (processor program) L.toSymbols c₀ (n + 1) .none
      ⟨e, reg, cr, efer, gb, gl, flatCode, fun _ => flatData⟩ := by
  refine safe_step runs_flat rfl hcode (fun m _ => direct_of_no_paging hp m) fun a ha m hm => ?_
  have hlow := L.smpStacktop_le
  have hlimit : L.smpStacktop + 4 ≤ flatData.limit + 1 := hlow
  exact ⟨_, _, _, perform_lockXadd (direct_of_no_paging hp m) rfl rfl rfl rfl hlimit hlow hesp,
    .take (update_self Reg.esp _ reg), hrest a _ _ hm.2 (update_self ..) ha⟩

/-- The return address goes onto the stack. -/
theorem safe_call {top a : Nat}
    (hcode : Code (processor program) .bits32 e (.call a :: is) (2 ^ 32))
    (hp : (cr .cr0).testBit 31 = false) (htop : IsStack top) (hesp : reg .esp = top)
    (ha : a < 2 ^ 32) (hne : is ≠ [])
    (hrest : ∀ ret reg', reg' .esp = top - 4 →
      Code (processor program) .bits32 ret is (2 ^ 32) →
        Safe (processor program) L.toSymbols c₀ n (.call top ret)
          ⟨a, reg', cr, efer, gb, gl, flatCode, fun _ => flatData⟩) :
    Safe (processor program) L.toSymbols c₀ (n + 1) (.stack top)
      ⟨e, reg, cr, efer, gb, gl, flatCode, fun _ => flatData⟩ := by
  refine safe_step runs_flat rfl hcode (fun m _ => direct_of_no_paging hp m) fun ret hret m hm => ?_
  unfold IsStack at htop
  have hlt : ret < 2 ^ 32 := by
    cases is with
    | nil => exact absurd rfl hne
    | cons j js =>
      obtain ⟨k, hk, _, hjs⟩ := hret
      have hle := hjs.le
      omega
  have hlimit : top - 4 + 4 ≤ flatData.limit + 1 := show top - 4 + 4 ≤ 2 ^ 32 - 1 + 1 by omega
  have htarget : a ≤ flatCode.limit := show a ≤ 2 ^ 32 - 1 by omega
  have hsize := runs_flat.size_eq ⟨ret, reg, cr, efer, gb, gl, flatCode, fun _ => flatData⟩ rfl
  exact ⟨_, _, _, perform_call (direct_of_no_paging hp m) hsize htarget rfl rfl rfl rfl rfl hlimit
    (by omega) (hesp.trans (by omega)), .push hlt, hrest ret _ (update_self ..) hret⟩

/-- `ap_start32` up to the call. -/
theorem safe_ap (hload : Loaded program L.toSymbols) (hprot : (cr .cr0).testBit 0 = true)
    (hp : (cr .cr0).testBit 31 = false)
    (hrest : ∀ top ret reg, IsStack top →
      Code (processor program) .bits32 ret [.ljmp 8 L.apStart64] (2 ^ 32) → reg .esp = top - 4 →
        Safe (processor program) L.toSymbols c₀ n (.call top ret)
          ⟨L.prepare64, reg, cr, efer, L.gdt32, 23, flatCode, fun _ => flatData⟩)
    (reg : Reg → Nat) (seg : SegReg → Segment) :
    Safe (processor program) L.toSymbols c₀ (n + 9) .none
      ⟨L.apStart32, reg, cr, efer, L.gdt32, 23, flatCode, seg⟩ := by
  refine safe_setReg runs_flat hload.ap hp rfl .eax (insert (reg .eax) 0 16 16)
    (fun _ _ _ => rfl) fun a₁ reg₁ heax₁ _ h₁ => ?_
  have hsel : reg₁ .eax % 2 ^ 16 = 16 := by
    rw [heax₁]
    exact selector_eq _
  refine safe_movSeg h₁ hprot hp hsel fun a₂ h₂ => ?_
  refine safe_movSeg h₂ hprot hp hsel fun a₃ h₃ => ?_
  refine safe_movSeg h₃ hprot hp hsel fun a₄ h₄ => ?_
  refine safe_movSeg h₄ hprot hp hsel fun a₅ h₅ => ?_
  refine safe_movSeg h₅ hprot hp hsel fun a₆ h₆ => ?_
  have hseg : update (update (update (update (update seg .ds flatData) .es flatData) .fs flatData)
      .gs flatData) .ss flatData = fun _ => flatData := by
    funext r
    cases r <;> rfl
  rw [hseg]
  refine safe_setReg runs_flat h₆ hp rfl .esp (2 ^ 32 - 4096) (fun _ _ _ => rfl)
    fun a₇ reg₇ hesp₇ _ h₇ => ?_
  refine safe_take h₇ hp hesp₇ fun a₈ top reg₈ htop hesp₈ h₈ => ?_
  exact safe_call h₈ hp htop hesp₈ (prepare64_lt hload) (by simp) fun ret reg₉ hesp₉ h₉ =>
    hrest top ret reg₉ htop h₉ hesp₉

/-- The first half of `prepare_64`, which leaves paging off. -/
theorem safe_tables (hload : Loaded program L.toSymbols) (hp : (cr .cr0).testBit 31 = false)
    (hlma : efer.testBit 10 = false)
    (hrest : ∀ a reg' cr', reg' .esp = reg .esp → cr' .cr0 = cr .cr0 → cr' .cr3 = ptl4 L.ptl2 →
      cr' .cr4 = cr .cr4 ||| 2 ^ 5 →
      Code (processor program) .bits32 a ((prepare64 L.toSymbols).drop 6) (2 ^ 32) →
        Safe (processor program) L.toSymbols c₀ n w ⟨a, reg', cr', efer, L.gdt64, 127, flatCode,
          fun _ => flatData⟩) :
    Safe (processor program) L.toSymbols c₀ (n + 6) w
      ⟨L.prepare64, reg, cr, efer, gb, gl, flatCode, fun _ => flatData⟩ := by
  have hdesc := (L.fixed (L.gdt64Desc + 9) (.inr (.inr (.inl (by unfold InRange; omega))))).2.2
  have hroot := (L.fixed (L.ptRoot + 7)
    (.inr (.inr (.inr (.inr (.inl (by unfold InRange; omega))))))).2.2
  have hlimit : L.gdt64Desc + 6 ≤ flatData.limit + 1 :=
    show L.gdt64Desc + 6 ≤ 2 ^ 32 - 1 + 1 by omega
  have hlimit' : L.ptRoot + 4 ≤ flatData.limit + 1 := show L.ptRoot + 4 ≤ 2 ^ 32 - 1 + 1 by omega
  refine safe_quiet runs_flat hload.prepare hp rfl (fun a m hm => perform_lgdt
    (direct_of_no_paging hp m) rfl rfl rfl hlimit (by omega) hm.1.gdt64Desc.1 hm.1.gdt64Desc.2)
    fun a₁ h₁ => ?_
  refine safe_setReg runs_flat h₁ hp rfl .eax (cr .cr4) (fun _ _ _ => rfl)
    fun a₂ reg₂ heax₂ hreg₂ h₂ => ?_
  refine safe_bts runs_flat h₂ hp heax₂ fun a₃ reg₃ heax₃ hreg₃ h₃ => ?_
  refine safe_quiet runs_flat h₃ hp rfl (fun a m _ => perform_movToCr4 heax₃ hlma) fun a₄ h₄ => ?_
  have hcr0 : update cr .cr4 (cr .cr4 ||| 2 ^ 5) .cr0 = cr .cr0 := update_of_ne (by decide) ..
  have hcr4 : update cr .cr4 (cr .cr4 ||| 2 ^ 5) .cr4 = cr .cr4 ||| 2 ^ 5 := update_self ..
  generalize update cr .cr4 (cr .cr4 ||| 2 ^ 5) = cr₄ at hcr0 hcr4 h₄ ⊢
  rw [← hcr0] at hp
  refine safe_setReg runs_flat h₄ hp rfl .eax (ptl4 L.ptl2) (fun a m hm => ?_)
    fun a₅ reg₅ heax₅ hreg₅ h₅ => ?_
  · have hread := read_eq (P := processor program)
      (c := ⟨a, reg₃, cr₄, efer, L.gdt64, 127, flatCode, fun _ => flatData⟩)
      (direct_of_no_paging hp m) (s := flatData) rfl rfl (by decide : 0 < 4) hlimit' (by omega)
    rw [hm.1.ptRoot] at hread
    exact congrArg (Option.map _) hread
  refine safe_quiet runs_flat h₅ hp rfl (f := fun a => ⟨a, reg₅, update cr₄ .cr3 (ptl4 L.ptl2),
    efer, L.gdt64, 127, flatCode, fun _ => flatData⟩) (fun a m _ => ?_) fun a₆ h₆ => ?_
  · rw [← heax₅]
    rfl
  refine hrest a₆ reg₅ _ ?_ ((update_of_ne (by decide) ..).trans hcr0) (update_self ..)
    ((update_of_ne (by decide) ..).trans hcr4) h₆
  rw [hreg₅ _ (by decide), hreg₃ _ (by decide), hreg₂ _ (by decide)]

end Blocks

/-- The value that `rdmsr`, `bts` and `wrmsr` make of the register. -/
theorem bts_msr (efer : Nat) :
    efer / 2 ^ 32 * 2 ^ 32 + (efer % 2 ^ 32 ||| 2 ^ 8) = efer ||| 2 ^ 8 := by
  have hlt : efer % 2 ^ 32 ||| 2 ^ 8 < 2 ^ 32 :=
    Nat.or_lt_two_pow (Nat.mod_lt _ (by decide)) (by decide)
  refine Nat.eq_of_testBit_eq fun j => ?_
  rw [Nat.mul_comm, Nat.testBit_two_pow_mul_add _ hlt, Nat.testBit_or, Nat.testBit_or,
    Nat.testBit_mod_two_pow, Nat.testBit_div_two_pow]
  by_cases hj : j < 32
  · rw [if_pos hj, decide_eq_true hj, Bool.true_and]
  · have h8 : Nat.testBit (2 ^ 8) j = false := Nat.testBit_two_pow_of_ne (by omega)
    rw [if_neg hj, Nat.sub_add_cancel (by omega), h8, Bool.or_false]

theorem testBit_efer (x y i : Nat) :
    (insert (insert (insert x 10 1 0 ||| 2 ^ 8) 10 1 y) 10 1 1).testBit i
      = (decide (i = 8 ∨ i = 10) || x.testBit i) := by
  rw [testBit_insert]
  by_cases h10 : i = 10
  · subst h10
    simp
  · have hout : ¬ (10 ≤ i ∧ i < 10 + 1) := by omega
    rw [if_neg hout, testBit_insert, if_neg hout, Nat.testBit_or, testBit_insert, if_neg hout]
    by_cases h8 : i = 8
    · subst h8
      rw [Nat.testBit_two_pow_self, Bool.or_true]
      rfl
    · rw [Nat.testBit_two_pow_of_ne (Ne.symm h8)]
      simp [h8, h10]

section Enter

variable {program : CodeSize → Nat → Option (Instr × Nat)} {L : Layout} {c₀ : Core}
  {e efer top ret : Nat} {reg : Reg → Nat} {cr : Cr → Nat}

/-- With paging on: the return from `prepare_64`, and the jump to
`ap_start64`. -/
theorem safe_return (hcode : Code (processor program) .bits32 e [.ret] (2 ^ 32))
    (hcr0 : cr .cr0 = c₀.cr .cr0 ||| 1 ||| 2 ^ 31) (hcr3 : cr .cr3 = ptl4 L.ptl2)
    (hcr4 : cr .cr4 = c₀.cr .cr4 ||| 2 ^ 5) (hla57 : (c₀.cr .cr4).testBit 12 = false)
    (hefer : ∀ i, efer.testBit i = (decide (i = 8 ∨ i = 10) || c₀.efer.testBit i))
    (hesp : reg .esp = top - 4) (htop : IsStack top)
    (hret : Code (processor program) .bits32 ret [.ljmp 8 L.apStart64] (2 ^ 32)) :
    Safe (processor program) L.toSymbols c₀ 2 (.call top ret)
      ⟨e, reg, cr, efer, L.gdt64, 127, flatCode, fun _ => flatData⟩ := by
  have hlma : efer.testBit 10 = true := by
    rw [hefer]
    simp
  have hla57' : (cr .cr4).testBit 12 = false := by
    rw [hcr4, Nat.testBit_or, hla57, Nat.testBit_two_pow_of_ne (by decide)]
    rfl
  have hprot : (cr .cr0).testBit 0 = true := by
    rw [hcr0]
    simp
  have hpaging : (cr .cr0).testBit 31 = true := by
    rw [hcr0]
    exact testBit_or_two_pow _ 31
  have hdirect : ∀ a reg' m, Image L.toSymbols m → Direct (processor program)
      ⟨a, reg', cr, efer, L.gdt64, 127, flatCode, fun _ => flatData⟩ m :=
    fun a reg' m hm => direct_of_tables hm.tables hpaging hlma hla57' hcr3
  obtain ⟨k, hk, hprogram, hend⟩ := hret
  have hle : ret + k ≤ 2 ^ 32 := hend
  have htop' := htop
  unfold IsStack at htop'
  have hpop : top - 4 + 4 = top := by omega
  have hgdt := (L.fixed (L.gdt64 + 127)
    (.inr (.inr (.inr (.inl (by unfold InRange; omega)))))).2.2
  refine safe_step runs_flat rfl hcode (fun m hm => hdirect e reg m hm.1) fun a _ m hm => ?_
  have hsize := runs_flat.size_eq ⟨a, reg, cr, efer, L.gdt64, 127, flatCode, fun _ => flatData⟩ rfl
  have hlimit : top - 4 + 4 ≤ flatData.limit + 1 := show top - 4 + 4 ≤ 2 ^ 32 - 1 + 1 by omega
  have htarget : ret ≤ flatCode.limit := show ret ≤ 2 ^ 32 - 1 by omega
  refine ⟨_, m, _, perform_ret (hdirect a reg m hm.1) hsize htarget rfl rfl rfl rfl hlimit
    (by omega) hesp hm.2.2, .quiet rfl, ?_⟩
  rw [hpop]
  refine safe_step runs_flat rfl ⟨k, hk, hprogram, hend⟩ (fun m hm => hdirect _ _ m hm.1)
    fun a _ m hm => ?_
  refine ⟨_, m, _, perform_ljmp (hdirect _ _ m hm.1) hprot (by decide) (by omega)
    (hm.1.gdt64 1 _ rfl) segmentOf_longCode rfl rfl rfl (fun _ => rfl) (.inr ⟨hlma, rfl⟩),
    .quiet rfl, top, ret, rfl, ?_⟩
  refine ⟨rfl, ?_, update_self Reg.esp top reg, hcr0, hcr3, hcr4, hefer, ⟨rfl, rfl⟩, rfl,
    fun _ => rfl⟩
  show (if (efer.testBit 10 && true) = true then CodeSize.bits64 else _) = _
  rw [hlma]
  rfl

/-- The second half of `prepare_64`, from the model-specific register on. -/
theorem safe_enter
    (hcode : Code (processor program) .bits32 e ((prepare64 L.toSymbols).drop 6) (2 ^ 32))
    (hcr0 : cr .cr0 = c₀.cr .cr0 ||| 1) (hcr3 : cr .cr3 = ptl4 L.ptl2)
    (hcr4 : cr .cr4 = c₀.cr .cr4 ||| 2 ^ 5) (hc : AfterSipi c₀)
    (hefer : efer = insert c₀.efer 10 1 0) (hesp : reg .esp = top - 4) (htop : IsStack top)
    (hret : Code (processor program) .bits32 ret [.ljmp 8 L.apStart64] (2 ^ 32)) :
    Safe (processor program) L.toSymbols c₀ 10 (.call top ret)
      ⟨e, reg, cr, efer, L.gdt64, 127, flatCode, fun _ => flatData⟩ := by
  have hp : (cr .cr0).testBit 31 = false := by
    rw [hcr0]
    exact hc.paging_off
  refine safe_setReg runs_flat hcode hp rfl .ecx EFER (fun _ _ _ => rfl)
    fun a₁ reg₁ hecx₁ hreg₁ h₁ => ?_
  refine safe_quiet runs_flat h₁ hp rfl (f := fun a => ⟨a,
    update (update reg₁ .eax (efer % 2 ^ 32)) .edx (efer / 2 ^ 32), cr, efer, L.gdt64, 127,
    flatCode, fun _ => flatData⟩) (fun a m _ => if_pos hecx₁) fun a₂ h₂ => ?_
  refine safe_bts runs_flat h₂ hp (v := efer % 2 ^ 32) rfl fun a₃ reg₃ heax₃ hreg₃ h₃ => ?_
  have hecx₃ : reg₃ .ecx = EFER := (hreg₃ _ (by decide)).trans hecx₁
  have hmsr : reg₃ .edx * 2 ^ 32 + reg₃ .eax = efer ||| 2 ^ 8 := by
    rw [heax₃, hreg₃ _ (by decide)]
    exact bts_msr efer
  have hesp₃ : reg₃ .esp = top - 4 :=
    (hreg₃ _ (by decide)).trans ((hreg₁ _ (by decide)).trans hesp)
  refine safe_quiet runs_flat h₃ hp rfl (fun a m _ => perform_wrmsr hecx₃ hmsr hp) fun a₄ h₄ => ?_
  refine safe_setReg runs_flat h₄ hp rfl .eax (cr .cr0) (fun _ _ _ => rfl)
    fun a₅ reg₅ heax₅ hreg₅ h₅ => ?_
  refine safe_bts runs_flat h₅ hp heax₅ fun a₆ reg₆ heax₆ hreg₆ h₆ => ?_
  refine safe_bts runs_flat h₆ hp heax₆ fun a₇ reg₇ heax₇ hreg₇ h₇ => ?_
  have hesp₇ : reg₇ .esp = top - 4 := by
    rw [hreg₇ _ (by decide), hreg₆ _ (by decide), hreg₅ _ (by decide), hesp₃]
  have hv : cr .cr0 ||| 2 ^ 0 ||| 2 ^ 31 = c₀.cr .cr0 ||| 1 ||| 2 ^ 31 := by
    rw [hcr0, Nat.or_assoc (c₀.cr .cr0)]
    rfl
  rw [hv] at heax₇
  have h31 : (c₀.cr .cr0 ||| 1 ||| 2 ^ 31).testBit 31 = true := testBit_or_two_pow _ 31
  have h0 : (c₀.cr .cr0 ||| 1 ||| 2 ^ 31).testBit 0 = true := by simp
  have hcache : (c₀.cr .cr0 ||| 1 ||| 2 ^ 31).testBit 29 →
      (c₀.cr .cr0 ||| 1 ||| 2 ^ 31).testBit 30 :=
    cache_or (cache_or hc.cache (by decide)) (Nat.testBit_two_pow_of_ne (by decide))
  have hpae : (cr .cr4).testBit 5 = true := by
    rw [hcr4]
    exact testBit_or_two_pow _ 5
  have hlme : (insert (efer ||| 2 ^ 8) 10 1 (extract efer 10 1)).testBit 8 = true := by
    rw [testBit_insert, if_neg (by decide)]
    exact testBit_or_two_pow _ 8
  refine safe_quiet runs_flat h₇ hp rfl (fun a m _ => perform_movToCr0 heax₇ (fun _ => h0) hcache
    fun _ _ => ⟨hpae, rfl⟩) fun a₈ h₈ => ?_
  rw [h31, hlme]
  refine safe_return h₈ (update_self ..) ((update_of_ne (by decide) ..).trans hcr3)
    ((update_of_ne (by decide) ..).trans hcr4) hc.la57 (fun i => ?_) hesp₇ htop hret
  rw [hefer]
  exact testBit_efer c₀.efer _ i

/-- All of the code, from the start-up interrupt on. -/
theorem safe_start (hload : Loaded program L.toSymbols) (hc : AfterSipi c₀) :
    Safe (processor program) L.toSymbols c₀ 30 .none c₀ := by
  refine safe_sipi hload hc fun reg cr hcr0 hcr => ?_
  have hp : (cr .cr0).testBit 31 = false := by
    rw [hcr0]
    exact hc.paging_off
  have hprot : (cr .cr0).testBit 0 = true := by
    rw [hcr0]
    simp
  refine safe_ap hload hprot hp (fun top ret reg htop hret hesp => ?_) reg c₀.seg
  have hlma : (insert c₀.efer 10 1 0).testBit 10 = false := by
    rw [testBit_insert]
    simp
  refine safe_tables hload hp hlma fun a reg' cr' hesp' hcr0' hcr3' hcr4' ha => ?_
  exact safe_enter ha (hcr0'.trans hcr0) hcr3' (by rw [hcr4', hcr _ (by decide)]) hc rfl
    (hesp'.trans hesp) htop hret

end Enter

end HyperBench.LongMode

import HyperBench.ApicBus
import HyperBench.OnCpu

/-!
# The processors at the level of registers

`Implements` says which state of `smp` a machine of `ApicBus` stands for.  The
registers of a chip depend on how far its processor has come: reset and empty
up to its enable bit, then with `IPI_VECTOR` requested or in service as the
call of `__on_cpu` has it.

* The lemmas `implements_*` follow one access each.
* `forward` and `backward` are the two directions for one step.
* `registers_bisimulate` is for whole runs: both levels have the same ones.
-/

namespace HyperBench.Apic

open Transition Function
open Idt (IPI_VECTOR)
open Smp (Mode Config Action IcrCommand BootPc ApPc)

/-! ## The two levels -/

/-- What a processor has to do with `IPI_VECTOR`. -/
inductive Phase where
  | outside
  /-- Its chip is reset and not enabled yet. -/
  | fresh
  /-- Its chip is enabled. -/
  | up (inService : Bool)

def phase : ApPc → Phase
  | .off => .outside
  | .waitSipi | .trampoline | .starting | .enableApic | .spurious => .fresh
  | .store | .load | .eoi _ => .up true
  | .setStarted | .x2apicMode | .x2apicOps | .sti | .halted | .iret => .up false

/-- The registers of a processor in a phase, with an interrupt pending or
not. -/
def Phase.Registers (pending : Bool) (l : Lapic) : Phase → Prop
  | .outside => True
  | .fresh => l.irr = ∅ ∧ l.isr = ∅
  | .up inService => l.Enabled ∧ l.irr = (if pending then {IPI_VECTOR} else ∅) ∧
      l.isr = if inService then {IPI_VECTOR} else ∅

/-- The chip `c` of the processor `x` stands for the mode and the pending
interrupt. -/
structure Shows (x : Nat) (c : Chip Lapic) (pc : ApPc) (mode : Mode) (pending : Bool) : Prop where
  mode : c.mode = some mode
  id : c.id = UInt32.ofNat x
  outbox : c.core.outbox = []
  registers : (phase pc).Registers pending c.core

/-- The processors with the modes and the interrupts of their chips. -/
def view (cpu : Smp.State) (mode : Nat → Mode) (pending : Nat → Bool) : Smp.State :=
  { cpu with mode := mode, pending := pending }

/-- The state of `smp` that a machine stands for.  The second command of
`lapicstartap` goes to the destination that the first one has left in the
register. -/
structure Implements (cfg : Config) (m : Machine) (s : Smp.State) : Prop where
  cpu : view m.cpu s.mode s.pending = s
  shows : ∀ x, Shows x (m.chip x) (s.ap x) (s.mode x) (s.pending x)
  aimed : ∀ i, s.boot = .start i 1 →
    (m.chip cfg.bsp).icr2 = (UInt8.ofNat (cfg.apicid i)).toUInt32 <<< 24

section Steps

variable {cfg : Config} {D : Device Lapic} {m : Machine} {s t cpu : Smp.State} {a : Action}
  {x : Nat} {c : Chip Lapic}

theorem phase_update {ap : Nat → ApPc} {q : ApPc} (h : phase q = phase (ap x)) (y : Nat) :
    phase (update ap x q y) = phase (ap y) := by
  by_cases hy : y = x
  · rw [hy, update_self, h]
  · rw [update_of_ne hy]

/-- A step that does not go to a local APIC neither looks at its mode and its
interrupt nor changes them. -/
theorem quiet_frame (ha : Quiet a) (h : Smp.Step cfg s a t) (f : Nat → Mode) (g : Nat → Bool) :
    Smp.Step cfg (view s f g) a (view t f g) ∧
      t.mode = s.mode ∧ t.pending = s.pending ∧ (∀ x, phase (t.ap x) = phase (s.ap x)) ∧
      ∀ i, t.boot = .start i 1 → s.boot = .start i 1 := by
  cases h with
  | bootEnable h => exact ⟨.bootEnable h, rfl, rfl, fun _ => rfl, by simp⟩
  | poll h =>
    refine ⟨.poll h, rfl, rfl, fun _ => rfl, fun j hj => ?_⟩
    rw [Smp.State.setBoot_boot] at hj
    split_ifs at hj
  | allStarted h hi => exact ⟨.allStarted h hi, rfl, rfl, fun _ => rfl, by simp⟩
  | bootOps h => exact ⟨.bootOps h, rfl, rfl, fun _ => rfl, by simp⟩
  | pin h => exact ⟨.pin h, rfl, rfl, fun _ => rfl, by simp⟩
  | onCpu i h => exact ⟨.onCpu i h, rfl, rfl, fun _ => rfl, by simp⟩
  | clear h => exact ⟨.clear h, rfl, rfl, fun _ => rfl, by simp⟩
  | loadIcr h => exact ⟨.loadIcr h, rfl, rfl, fun _ => rfl, by simp⟩
  | readDone h =>
    refine ⟨.readDone h, rfl, rfl, fun _ => rfl, fun j hj => ?_⟩
    rw [Smp.State.setBoot_boot] at hj
    split_ifs at hj
  | stack h => exact ⟨.stack h, rfl, rfl, phase_update (by rw [h]; rfl), fun _ => id⟩
  | @printEnabling x h =>
    have hphase : phase .spurious = phase (s.ap x) := by
      rw [h]
      rfl
    exact ⟨.printEnabling h, rfl, rfl, phase_update hphase, fun _ => id⟩
  | apOps h => exact ⟨.apOps h, rfl, rfl, phase_update (by rw [h]; rfl), fun _ => id⟩
  | sti h => exact ⟨.sti h, rfl, rfl, phase_update (by rw [h]; rfl), fun _ => id⟩
  | store h => exact ⟨.store h, rfl, rfl, phase_update (by rw [h]; rfl), fun _ => id⟩
  | loadEoi h => exact ⟨.loadEoi h, rfl, rfl, phase_update (by rw [h]; rfl), fun _ => id⟩
  | iret h => exact ⟨.iret h, rfl, rfl, phase_update (by rw [h]; rfl), fun _ => id⟩
  | _ => exact ha.elim

namespace Implements

theorem boot_eq (h : Implements cfg m s) : s.boot = m.cpu.boot := by
  rw [← h.cpu]
  rfl

theorem ap_eq (h : Implements cfg m s) : s.ap = m.cpu.ap := by
  rw [← h.cpu]
  rfl

/-- The processors behind a step that changes the program counter, the mode,
the interrupt and the chip of at most one of them. -/
theorem step_at (h : Implements cfg m s)
    (hcpu : view cpu t.mode t.pending = t)
    (hother : ∀ y, y ≠ x → t.ap y = s.ap y ∧ t.mode y = s.mode y ∧ t.pending y = s.pending y)
    (hx : Shows x c (t.ap x) (t.mode x) (t.pending x))
    (haimed : ∀ i, t.boot = .start i 1 → (update m.chip x c cfg.bsp).icr2
      = (UInt8.ofNat (cfg.apicid i)).toUInt32 <<< 24) :
    Implements cfg ⟨cpu, update m.chip x c⟩ t where
  cpu := hcpu
  shows y := by
    by_cases hy : y = x
    · subst hy
      simpa only [update_self] using hx
    · obtain ⟨hap, hmode, hpending⟩ := hother y hy
      simpa only [update_of_ne hy, hap, hmode, hpending] using h.shows y
  aimed := haimed

/-- A step that leaves the chips as they are. -/
theorem same (h : Implements cfg m s) (hcpu : view cpu t.mode t.pending = t)
    (hmode : t.mode = s.mode) (hpending : t.pending = s.pending)
    (hphase : ∀ x, phase (t.ap x) = phase (s.ap x))
    (hboot : ∀ i, t.boot = .start i 1 → s.boot = .start i 1) : Implements cfg (m.setCpu cpu) t := by
  refine ⟨hcpu, fun x => ?_, fun i hi => h.aimed i (hboot i hi)⟩
  obtain ⟨hm, hid, hout, hregs⟩ := h.shows x
  refine ⟨?_, hid, hout, ?_⟩
  · rw [hmode]
    exact hm
  · rw [hphase, hpending]
    exact hregs

end Implements

/-! ### One access -/

variable {delay : Lapic → Nat} {pc : ApPc} {mode : Mode} {pending : Bool}

theorem xapicRead_id (hm : c.mode = some .xapic) : xapicRead D (4 * ID) c = (c.id <<< 24, c) := by
  simp [xapicRead, Chip.mmioRead, hm, ID, APIC_ID]

theorem lapicid_eq (h : Implements cfg m s) (hx : x < 256) :
    lapicid D (m.chip x) = Smp.lapicid s x := by
  obtain ⟨hm, hid, _, _⟩ := h.shows x
  unfold lapicid Smp.lapicid
  cases hmode : s.mode x with
  | xapic =>
    rw [hmode] at hm
    have hlt : UInt32.ofNat x < 256 := by
      rw [UInt32.lt_iff_toNat_lt, UInt32.toNat_ofNat']
      exact Nat.lt_of_le_of_lt (Nat.mod_le _ _) hx
    rw [xapicRead_id hm, hid, shiftRight_shiftLeft hlt, UInt32.toNat_ofNat']
    exact Nat.mod_eq_of_lt (by omega)
  | x2apic =>
    rw [hmode] at hm
    have hread : xapicRead D (4 * ID) (m.chip x) = (0xffffffff, m.chip x) := by
      simp [xapicRead, Chip.mmioRead, hm]
    have hones : ((0xffffffff : UInt32) >>> 24).toNat = 0xff := by decide
    rw [hread]
    exact hones

theorem xapicWrite_spiv (hm : c.mode = some .xapic) (val : UInt32) :
    xapicWrite (lapic delay) APIC_SPIV val c
      = { c with core := { c.core with svr := val } } := by
  simp [xapicWrite, Chip.mmioWrite, hm, APIC_SPIV, APIC_ID, APIC_ICR, APIC_ICR2, lapic]

theorem apicWrite_eoi (hm : c.mode = some mode) :
    apicWrite (lapic delay) mode APIC_EOI 0 c
      = .ok { c with core := c.core.endOfInterrupt } := by
  rw [apicWrite_eq hm plain_eoi rfl]
  rfl

theorem enableMode_eq (delay : Lapic → Nat) (hm : c.mode = some .xapic) (x2apic : Bool) :
    ∃ base, enableMode (lapic delay) x2apic c = .ok { c with base := base } ∧
      modeOf base = some (if x2apic then .x2apic else .xapic) := by
  cases x2apic with
  | false => exact ⟨c.base, rfl, hm⟩
  | true =>
    refine ⟨c.base ||| APIC_EXTD, ?_, modeOf_or_extd (by simp [hm])⟩
    rw [enableMode, if_pos rfl, setExtended_eq, hm]
    rfl

/-! ### Commands -/

theorem lapicw_icrhi (hm : c.mode = some .xapic) (val : UInt32) :
    lapicw D c (ICRHI, val) = { c with icr2 := val } := by
  have hafter : Chip.mode { c with icr2 := val } = some .xapic := mode_of_base hm rfl
  rw [lapicw, show 4 * (ICRHI, val).1 = APIC_ICR2 from rfl, xapicWrite_icr2 hm,
    xapicRead_id hafter]

/-- The chip behind a command. -/
def commanded (delay : Lapic → Nat) (val : UInt32) (c : Chip Lapic) : Chip Lapic :=
  let core := { c.core with outbox := c.core.outbox ++ [(val, c.icr2 >>> 24)] }
  { c with icr := val, busy := delay core, core := core }

theorem lapicw_icrlo (hm : c.mode = some .xapic) (val : UInt32) :
    lapicw (lapic delay) c (ICRLO, val) = commanded delay val c := by
  have hafter : (commanded delay val c).mode = some .xapic := mode_of_base hm rfl
  rw [lapicw, show 4 * (ICRLO, val).1 = APIC_ICR from rfl, xapicWrite_icr hm]
  exact congrArg Prod.snd (xapicRead_id hafter)

/-- The commands of `lapicstartap` with the address 0. -/
def startupCommand : Nat → UInt32
  | 0 => INIT ||| LEVEL ||| ASSERT
  | 1 => INIT ||| LEVEL
  | _ => STARTUP ||| (0 : UInt32) >>> 12

theorem decode_startupCommand {k : Nat} {cmd : IcrCommand}
    (hcmd : Smp.lapicstartap[k]? = some cmd) :
    ∃ msg, decode (startupCommand k) = some msg ∧ msg.command? = some cmd := by
  rcases k with _ | _ | _ | _ | k
  · exact ⟨.init, by decide, hcmd⟩
  · exact ⟨.deassert, by decide, hcmd⟩
  · exact ⟨.startup 0, by decide, hcmd⟩
  · exact ⟨.startup 0, by decide, hcmd⟩
  · exact absurd hcmd (by simp [Smp.lapicstartap])

/-- A group of writes sends one command to the processor. -/
theorem foldl_lapicw (delay : Lapic → Nat) {apicid : UInt8} {k : Nat} {ws : List (Nat × UInt32)}
    (hm : c.mode = some .xapic)
    (hws : (lapicstartap apicid 0)[k]? = some ws)
    (haimed : k = 1 → c.icr2 = apicid.toUInt32 <<< 24) :
    ws.foldl (lapicw (lapic delay)) c
      = commanded delay (startupCommand k) { c with icr2 := apicid.toUInt32 <<< 24 } := by
  have hafter : Chip.mode { c with icr2 := apicid.toUInt32 <<< 24 } = some .xapic :=
    mode_of_base hm rfl
  -- a destination and a command
  have hpair : ∀ val, [(ICRHI, apicid.toUInt32 <<< 24), (ICRLO, val)].foldl (lapicw (lapic delay)) c
      = commanded delay val { c with icr2 := apicid.toUInt32 <<< 24 } := by
    intro val
    rw [List.foldl_cons, List.foldl_cons, List.foldl_nil, lapicw_icrhi hm, lapicw_icrlo hafter]
  rcases k with _ | _ | _ | _ | k
  · obtain rfl := Option.some.inj hws
    exact hpair _
  · obtain rfl := Option.some.inj hws
    rw [List.foldl_cons, List.foldl_nil, lapicw_icrlo hm, ← haimed rfl]
    rfl
  · obtain rfl := Option.some.inj hws
    exact hpair _
  · obtain rfl := Option.some.inj hws
    exact hpair _
  · exact absurd hws (by simp [lapicstartap])

theorem Message.onPc_eq {msg : Message} {cmd : IcrCommand} (h : msg.command? = some cmd)
    (pc : ApPc) : msg.onPc pc = cmd.effect pc := by
  cases msg with
  | fixed vec => cases h
  | init =>
    cases h
    rfl
  | deassert =>
    cases h
    rfl
  | startup page =>
    rw [Message.command?] at h
    split_ifs at h with hpage
    cases h
    rw [Message.onPc, if_pos hpage]

/-! ### The steps that go to a local APIC -/

namespace Implements

/-- A step of the boot processor that goes to its chip. -/
theorem boot_chip {p : BootPc} (h : Implements cfg m s) (hinv : Smp.Inv cfg s)
    (hmode : c.mode = some mode) (hid : c.id = (m.chip cfg.bsp).id) (hout : c.core.outbox = [])
    (haimed : ∀ i, p = .start i 1 → c.icr2 = (UInt8.ofNat (cfg.apicid i)).toUInt32 <<< 24) :
    Implements cfg ((m.setCpu (m.cpu.setBoot p)).setChip cfg.bsp c)
      ({ s with mode := update s.mode cfg.bsp mode }.setBoot p) := by
  have hbsp : Shows cfg.bsp c (s.ap cfg.bsp) mode (s.pending cfg.bsp) := by
    refine ⟨hmode, hid.trans (h.shows cfg.bsp).id, hout, ?_⟩
    rw [hinv.bspOff]
    trivial
  refine h.step_at ?_ ?_ ?_ ?_
  · exact congrArg (fun s : Smp.State =>
      { s with mode := update s.mode cfg.bsp mode }.setBoot p) h.cpu
  · exact fun y hy => ⟨rfl, update_of_ne hy _ _, rfl⟩
  · simpa [Smp.State.setBoot] using hbsp
  · intro i hi
    rw [update_self]
    exact haimed i hi

/-- The same, in the mode that the chip has. -/
theorem boot_keep {p : BootPc} (h : Implements cfg m s) (hinv : Smp.Inv cfg s)
    (hbase : c.base = (m.chip cfg.bsp).base) (hid : c.id = (m.chip cfg.bsp).id)
    (hout : c.core.outbox = [])
    (haimed : ∀ i, p = .start i 1 → c.icr2 = (UInt8.ofNat (cfg.apicid i)).toUInt32 <<< 24) :
    Implements cfg ((m.setCpu (m.cpu.setBoot p)).setChip cfg.bsp c) (s.setBoot p) := by
  have hstep := h.boot_chip hinv (mode_of_base (h.shows cfg.bsp).mode hbase) hid hout haimed
  rwa [update_eq_self] at hstep

/-- A step of another processor that goes to its chip. -/
theorem ap_chip {q : ApPc} (h : Implements cfg m s) (hx : Shows x c q mode pending)
    (hicr2 : c.icr2 = (m.chip x).icr2) :
    Implements cfg ((m.setCpu (m.cpu.setAp x q)).setChip x c) ({ s with
      mode := update s.mode x mode
      pending := update s.pending x pending }.setAp x q) := by
  refine h.step_at ?_ ?_ ?_ ?_
  · exact congrArg (fun s : Smp.State => { s with
      mode := update s.mode x mode
      pending := update s.pending x pending }.setAp x q) h.cpu
  · exact fun y hy => ⟨update_of_ne hy _ _, update_of_ne hy _ _, update_of_ne hy _ _⟩
  · simpa [Smp.State.setAp] using hx
  · intro i hi
    rw [← h.aimed i hi]
    by_cases hb : cfg.bsp = x
    · rw [hb, update_self, hicr2]
    · rw [update_of_ne hb]

end Implements

theorem implements_bootSpurious (h : Implements cfg m s) (hinv : Smp.Inv cfg s)
    (hboot : s.boot = .spurious) :
    Implements cfg ((m.setCpu (m.cpu.setBoot (.loop 0))).setChip cfg.bsp
      (xapicWrite (lapic delay) APIC_SPIV 0x1ff (m.chip cfg.bsp))) (s.setBoot (.loop 0)) := by
  obtain ⟨hm, _, hout, _⟩ := h.shows cfg.bsp
  have hxapic : s.mode cfg.bsp = .xapic := by
    rw [hinv.bootMode, hboot]
    rfl
  rw [hxapic] at hm
  rw [xapicWrite_spiv hm]
  exact h.boot_keep hinv rfl rfl hout (by simp)

theorem implements_enableMode_boot (delay : Lapic → Nat) {p : BootPc} (h : Implements cfg m s)
    (hinv : Smp.Inv cfg s) (hboot : s.boot = .x2apicMode) (hp : ∀ i k, p ≠ .start i k) :
    ∃ c, enableMode (lapic delay) cfg.x2apic (m.chip cfg.bsp) = .ok c ∧
      Implements cfg ((m.setCpu (m.cpu.setBoot p)).setChip cfg.bsp c)
        ({ s with mode := update s.mode cfg.bsp cfg.final }.setBoot p) := by
  obtain ⟨hm, _, hout, _⟩ := h.shows cfg.bsp
  rw [hinv.bootMode, hboot] at hm
  obtain ⟨base, hbase, hmode⟩ := enableMode_eq delay hm cfg.x2apic
  exact ⟨_, hbase, h.boot_chip hinv hmode rfl hout fun i hi => absurd hi (hp i 1)⟩

theorem implements_apMode (delay : Lapic → Nat) {q : ApPc} (h : Implements cfg m s)
    (hinv : Smp.Inv cfg s) (hap : s.ap x = .x2apicMode) (hq : phase q = .up false) :
    ∃ c, enableMode (lapic delay) cfg.x2apic (m.chip x) = .ok c ∧
      Implements cfg ((m.setCpu (m.cpu.setAp x q)).setChip x c)
        ({ s with mode := update s.mode x cfg.final }.setAp x q) := by
  obtain ⟨hm, hid, hout, hregs⟩ := h.shows x
  rw [hinv.mode_of_running (by rw [hap]; trivial), hap] at hm
  obtain ⟨base, hbase, hmode⟩ := enableMode_eq delay hm cfg.x2apic
  rw [hap] at hregs
  have hx : Shows x { m.chip x with base := base } q cfg.final (s.pending x) := by
    refine ⟨hmode, hid, hout, ?_⟩
    rw [hq]
    exact hregs
  have hstep := h.ap_chip hx rfl
  rw [update_eq_self] at hstep
  exact ⟨_, hbase, hstep⟩

theorem implements_spurious (h : Implements cfg m s) (hinv : Smp.Inv cfg s)
    (hap : s.ap x = .spurious) (hpending : s.pending x = false) :
    Implements cfg ((m.setCpu (m.cpu.setAp x .setStarted)).setChip x
      (xapicWrite (lapic delay) APIC_SPIV 0x1ff (m.chip x))) (s.setAp x .setStarted) := by
  obtain ⟨hm, hid, hout, hregs⟩ := h.shows x
  have hxapic : s.mode x = .xapic := by
    rw [hinv.mode_of_running (by rw [hap]; trivial), hap]
    rfl
  rw [hxapic] at hm
  rw [hap] at hregs
  rw [xapicWrite_spiv hm]
  have hx : Shows x { m.chip x with core := { (m.chip x).core with svr := 0x1ff } } .setStarted
      (s.mode x) (s.pending x) := by
    refine ⟨?_, hid, hout, ?_, ?_, ?_⟩
    · rw [hxapic]
      exact mode_of_base hm rfl
    · exact (by decide : (0x1ff : UInt32).toNat.testBit 8 = true)
    · rw [hpending]
      exact hregs.1
    · exact hregs.2
  have hstep := h.ap_chip hx rfl
  rwa [update_eq_self, update_eq_self] at hstep

theorem implements_deliver (h : Implements cfg m s) (hap : s.ap x = .halted)
    (hpending : s.pending x = true) :
    Implements cfg ((m.setCpu (m.cpu.setAp x .store)).setCore x (·.deliver IPI_VECTOR))
      ({ s with pending := update s.pending x false }.setAp x .store) := by
  obtain ⟨hm, hid, hout, hregs⟩ := h.shows x
  rw [hap, hpending] at hregs
  obtain ⟨hon, hirr, hisr⟩ := hregs
  have hx : Shows x { m.chip x with core := (m.chip x).core.deliver IPI_VECTOR } .store
      (s.mode x) false := by
    refine ⟨hm, hid, hout, hon, ?_, ?_⟩
    · rw [Lapic.deliver, hirr]
      rfl
    · rw [Lapic.deliver, hisr]
      rfl
  have hstep := h.ap_chip hx rfl
  rwa [update_eq_self] at hstep

/-- The processor is interrupted just when the interrupt is pending. -/
theorem delivers_iff (h : Implements cfg m s) (hap : s.ap x = .halted) :
    (m.chip x).core.Delivers IPI_VECTOR ↔ s.pending x = true := by
  obtain ⟨_, _, _, hregs⟩ := h.shows x
  rw [hap] at hregs
  obtain ⟨_, hirr, hisr⟩ := hregs
  rw [Lapic.Delivers, hirr, hisr]
  cases s.pending x <;> simp

theorem implements_eoi (delay : Lapic → Nat) {ops : Mode} (h : Implements cfg m s)
    (hinv : Smp.Inv cfg s) (hap : s.ap x = .eoi ops) :
    ∃ c, apicWrite (lapic delay) ops APIC_EOI 0 (m.chip x) = .ok c ∧
      Implements cfg ((m.setCpu (m.cpu.setAp x .iret)).setChip x c) (s.setAp x .iret) := by
  obtain ⟨hm, hid, hout, hregs⟩ := h.shows x
  have hops : s.mode x = ops := by
    rw [hinv.apLoaded x ops hap, hinv.mode_of_running (by rw [hap]; trivial), hap]
    rfl
  rw [hap] at hregs
  obtain ⟨hon, hirr, hisr⟩ := hregs
  have hx : Shows x { m.chip x with core := (m.chip x).core.endOfInterrupt } .iret (s.mode x)
      (s.pending x) := by
    refine ⟨hm, hid, hout, hon, hirr, ?_⟩
    rw [Lapic.endOfInterrupt, hisr]
    simp
  have hstep := h.ap_chip hx rfl
  rw [update_eq_self, update_eq_self] at hstep
  rw [← hops]
  exact ⟨_, apicWrite_eoi hm, hstep⟩

theorem phase_startup (pc : ApPc) : phase (IcrCommand.startup.effect pc) = phase pc := by
  cases pc <;> rfl

/-- A processor receives a command of `lapicstartap`. -/
theorem implements_command {msg : Message} {cmd : IcrCommand} (h : Implements cfg m s)
    (hcmd : msg.command? = some cmd) (x : Nat) :
    Implements cfg (m.receive x msg) (s.setAp x (cmd.effect (s.ap x))) := by
  obtain ⟨hm, hid, hout, hregs⟩ := h.shows x
  have hx : Shows x { m.chip x with core := msg.onCore (m.chip x).core } (cmd.effect (s.ap x))
      (s.mode x) (s.pending x) := by
    cases msg with
    | fixed vec => cases hcmd
    | init =>
      cases hcmd
      exact ⟨hm, hid, rfl, rfl, rfl⟩
    | deassert =>
      cases hcmd
      exact ⟨hm, hid, hout, hregs⟩
    | startup page =>
      rw [Message.command?] at hcmd
      split_ifs at hcmd
      cases hcmd
      refine ⟨hm, hid, hout, ?_⟩
      rw [phase_startup]
      exact hregs
  have hreceive : m.receive x msg = (m.setCpu (m.cpu.setAp x (cmd.effect (s.ap x)))).setChip x
      { m.chip x with core := msg.onCore (m.chip x).core } := by
    rw [Machine.receive, Message.onPc_eq hcmd, h.ap_eq]
    rfl
  have hstep := h.ap_chip hx rfl
  rw [update_eq_self, update_eq_self] at hstep
  rw [hreceive]
  exact hstep

/-- A processor receives the interrupt of `__on_cpu`. -/
theorem implements_ipi (h : Implements cfg m s) (hx : phase (s.ap x) ≠ .fresh) :
    Implements cfg (m.receive x (.fixed IPI_VECTOR))
      { s with pending := update s.pending x true } := by
  obtain ⟨hm, hid, hout, hregs⟩ := h.shows x
  have hshows : Shows x { m.chip x with core := (m.chip x).core.accept IPI_VECTOR } (s.ap x)
      (s.mode x) true := by
    refine ⟨hm, hid, ?_, ?_⟩
    · unfold Lapic.accept
      split_ifs <;> exact hout
    · cases hp : phase (s.ap x) with
      | outside => trivial
      | fresh => exact absurd hp hx
      | up inService =>
        rw [hp] at hregs
        obtain ⟨hon, hirr, hisr⟩ := hregs
        rw [Lapic.accept, if_pos hon]
        refine ⟨hon, ?_, hisr⟩
        rw [hirr]
        cases s.pending x <;> rfl
  have hreceive : m.receive x (.fixed IPI_VECTOR) = (m.setCpu (m.cpu.setAp x (s.ap x))).setChip x
      { m.chip x with core := (m.chip x).core.accept IPI_VECTOR } := by
    rw [Machine.receive, h.ap_eq]
    rfl
  have hstep := h.ap_chip hshows rfl
  simp only [Smp.State.setAp, update_eq_self] at hstep
  rw [hreceive]
  simpa only [Smp.State.setAp, update_eq_self] using hstep

theorem toNat_apicid {n : Nat} (h : n < 256) : (UInt8.ofNat n).toUInt32.toNat = n := by
  rw [UInt8.toNat_toUInt32, UInt8.toNat_ofNat']
  exact Nat.mod_eq_of_lt h

theorem apicid_lt (apicid : UInt8) : apicid.toUInt32 < 256 := by
  rw [UInt32.lt_iff_toNat_lt, UInt8.toNat_toUInt32]
  exact apicid.toNat_lt

/-- A group of `lapicstartap`: the command that goes out, and the machine when
it has arrived. -/
theorem implements_icrCommand (delay : Lapic → Nat) {i k : Nat} {ws : List (Nat × UInt32)}
    {p : BootPc} (h : Implements cfg m s) (hinv : Smp.Inv cfg s) (hboot : s.boot = .start i k)
    (hws : (lapicstartap (UInt8.ofNat (cfg.apicid i)) 0)[k]? = some ws)
    (hp : ∀ j, p = .start j 1 → j = i) :
    let c := ws.foldl (lapicw (lapic delay)) (m.chip cfg.bsp)
    c.core.outbox = [(startupCommand k, (UInt8.ofNat (cfg.apicid i)).toUInt32)] ∧
      Implements cfg ((m.setCpu (m.cpu.setBoot p)).leave cfg.bsp c) (s.setBoot p) := by
  obtain ⟨hm, hid, hout, _⟩ := h.shows cfg.bsp
  have hxapic : s.mode cfg.bsp = .xapic := by
    rw [hinv.bootMode, hboot]
    rfl
  rw [hxapic] at hm
  have hfold := foldl_lapicw delay hm hws fun hk => h.aimed i (by rw [hboot, hk])
  intro c
  have hc : c = commanded delay (startupCommand k) { m.chip cfg.bsp with
      icr2 := (UInt8.ofNat (cfg.apicid i)).toUInt32 <<< 24 } := hfold
  constructor
  · rw [hc]
    simp only [commanded, hout, shiftRight_shiftLeft (apicid_lt _), List.nil_append]
  · refine h.boot_keep hinv (by rw [hc]; rfl) (by rw [hc]; rfl) rfl ?_
    intro j hj
    rw [hp j hj, hc]
    rfl

theorem toNat_ofNat {n : Nat} (h : n < 256) : (UInt32.ofNat n).toNat = n := by
  rw [UInt32.toNat_ofNat']
  exact Nat.mod_eq_of_lt (by omega)

theorem ofNat_lt {n : Nat} (h : n < 256) : UInt32.ofNat n < 256 := by
  rw [UInt32.lt_iff_toNat_lt, toNat_ofNat h]
  exact h

/-- `apic_icr_write` of `__on_cpu` returns, and has sent the command. -/
theorem implements_sendIpi (delay : Lapic → Nat) {ops : Mode} (h : Implements cfg m s)
    (hinv : Smp.Inv cfg s) (hboot : s.boot = .icr x ops) (hx : x < 256) :
    ∃ c, c.core.outbox = [(ipiCommand, UInt32.ofNat x)] ∧
      (∃ fuel, apicIcrWrite (lapic delay) fuel ops ipiCommand (UInt32.ofNat x) (m.chip cfg.bsp)
        = .ok c) ∧
      (∀ fuel c', apicIcrWrite (lapic delay) fuel ops ipiCommand (UInt32.ofNat x)
        (m.chip cfg.bsp) = .ok c' → c' = c) ∧
      Implements cfg ((m.setCpu (m.cpu.setBoot (.done x))).leave cfg.bsp c)
        (s.setBoot (.done x)) := by
  obtain ⟨hm, hid, hout, _⟩ := h.shows cfg.bsp
  have hops : s.mode cfg.bsp = ops := by
    rw [hinv.bootMode, hboot, hinv.bootLoaded x ops hboot]
    rfl
  rw [hops] at hm
  refine ⟨sent (lapic delay) ops ipiCommand (UInt32.ofNat x) (m.chip cfg.bsp), ?_, ?_, ?_, ?_⟩
  · show (m.chip cfg.bsp).core.outbox ++ [(ipiCommand, UInt32.ofNat x)] = _
    rw [hout, List.nil_append]
  · exact ⟨_, apicIcrWrite_eq hm (ofNat_lt hx) (Nat.lt_succ_self _)⟩
  · exact fun fuel c' hc => sent_of_apicIcrWrite hm (ofNat_lt hx) hc
  · exact h.boot_keep hinv rfl rfl rfl (by simp)

/-! ### Both directions -/

theorem Implements.cpu_eq (h : Implements cfg m s) : view s m.cpu.mode m.cpu.pending = m.cpu :=
  (congrArg (fun s => view s m.cpu.mode m.cpu.pending) h.cpu).symm

/-- The ids that `on_cpu` is called for fit in a byte. -/
def Called : BootPc → Prop
  | .clear x | .load x | .icr x _ | .done x => x < 256
  | _ => True

theorem apicid_lt_of_table (h256 : ∀ y ∈ cfg.apicids, y < 256) (i : Nat) : cfg.apicid i < 256 := by
  by_cases hi : i < cfg.apicids.length
  · rw [Smp.Config.apicid_eq hi]
    exact h256 _ (List.getElem_mem hi)
  · rw [Config.apicid, List.getD_eq_default _ _ (by omega)]
    decide

theorem called_step (h256 : ∀ y ∈ cfg.apicids, y < 256) (h : Called s.boot)
    (hstep : Smp.Step cfg s a t) : Called t.boot := by
  rcases ha : a.cpu with _ | _ | y
  · cases hstep with
    | onCpu i hb => exact apicid_lt_of_table h256 i
    | _ => simp [Smp.Action.cpu] at ha
  · have hnext := hstep.boot_next ha
    cases hb : s.boot with
    | loop i =>
      rw [hb] at hnext
      rcases hnext with ⟨_, hq | hq⟩ | ⟨_, hq⟩ <;> rw [hq] <;> trivial
    | start i k =>
      rw [hb] at hnext
      rw [show t.boot = _ from hnext]
      split <;> trivial
    | wait i | x2apicMode =>
      rw [hb] at hnext
      rcases hnext with hq | hq <;> rw [hq] <;> trivial
    | ready =>
      rw [hb] at hnext
      exact hnext.elim
    | load x =>
      rw [hb] at hnext h
      obtain ⟨ops, hq⟩ := hnext
      rw [hq]
      exact h
    | done x =>
      rw [hb] at hnext h
      rcases hnext with hq | hq <;> rw [hq]
      · trivial
      · exact h
    | clear x | icr x ops =>
      rw [hb] at hnext h
      rw [show t.boot = _ from hnext]
      exact h
    | _ =>
      rw [hb] at hnext
      rw [show t.boot = _ from hnext]
      trivial
  · rwa [hstep.boot_eq ha]

theorem called_run {as : List Action} (h256 : ∀ y ∈ cfg.apicids, y < 256)
    (hrun : Run (Smp.smp cfg) as s) : Called s.boot := by
  refine hrun.invariant (fun _ s => Called s.boot) ?_ fun _ _ _ _ h hstep =>
    called_step h256 h hstep
  rintro s ⟨hboot, _⟩
  rw [hboot]
  trivial

/-- What a run of `smp` gives to the steps. -/
structure Reached (cfg : Config) (s : Smp.State) : Prop where
  inv : Smp.Inv cfg s
  call : Smp.CallInv s
  called : Called s.boot
  listed : ∀ x, s.ap x ≠ .off → x < 256
  /-- No interrupt is sent to a processor on its way through `mpenter`. -/
  returned : s.boot.Returned → ∀ x, phase (s.ap x) ≠ .fresh
  bsp_lt : cfg.bsp < 256

theorem phase_of_rank {pc : ApPc} (h : 7 ≤ pc.rank) : phase pc ≠ .fresh := by
  cases pc <;> simp_all [ApPc.rank, phase]

theorem reached_of_run {as : List Action} (hbsp : cfg.bsp ∈ cfg.apicids)
    (h256 : ∀ y ∈ cfg.apicids, y < 256) (hrun : Run (Smp.smp cfg) as s) : Reached cfg s where
  inv := Smp.inv_run hrun
  call := Smp.callInv_run hrun
  called := called_run h256 hrun
  listed x hx := by
    obtain ⟨_, i, hi, rfl⟩ := Smp.Config.mem_others.1 ((Smp.startInv_run hbsp hrun).listed x hx)
    exact apicid_lt_of_table h256 i
  returned hret x := by
    by_cases hoff : s.ap x = .off
    · rw [hoff]
      simp [phase]
    · exact phase_of_rank ((Smp.startInv_run hbsp hrun).rank_of_running hret hoff)
  bsp_lt := h256 _ hbsp

theorem implements_mycpu {p : BootPc} (h : Implements cfg m s) (hp : ∀ i, p ≠ .start i 1)
    (texts : List (List UInt8)) :
    Implements cfg (m.setCpu ((m.cpu.print texts).setBoot p)) ((s.print texts).setBoot p) :=
  h.same (congrArg (fun s : Smp.State => (s.print texts).setBoot p) h.cpu) rfl rfl (fun _ => rfl)
    fun i hi => absurd hi (hp i)

theorem implements_printStarting (h : Implements cfg m s) (hap : s.ap x = .starting)
    (texts : List (List UInt8)) :
    Implements cfg (m.setCpu ((m.cpu.print texts).setAp x .enableApic))
      ((s.print texts).setAp x .enableApic) := by
  have hphase : phase .enableApic = phase (s.ap x) := by
    rw [hap]
    rfl
  exact h.same (congrArg (fun s : Smp.State => (s.print texts).setAp x .enableApic) h.cpu) rfl rfl
    (phase_update hphase) fun _ => id

theorem implements_setStarted (h : Implements cfg m s) (hap : s.ap x = .setStarted) (r : Nat)
    (texts : List (List UInt8)) :
    Implements cfg (m.setCpu (({ m.cpu with started := update m.cpu.started r true }.print
        texts).setAp x .x2apicMode))
      (({ s with started := update s.started r true }.print texts).setAp x .x2apicMode) := by
  have hphase : phase .x2apicMode = phase (s.ap x) := by
    rw [hap]
    rfl
  exact h.same (congrArg (fun s : Smp.State =>
    ({ s with started := update s.started r true }.print texts).setAp x .x2apicMode) h.cpu) rfl rfl
    (phase_update hphase) fun _ => id

/-- The interrupt of `__on_cpu` has not been sent to a processor in front of
its enable bit. -/
theorem Reached.not_pending (hs : Reached cfg s) (hap : s.ap x = .spurious) :
    s.pending x = false := by
  by_contra hp
  obtain ⟨hdone, _⟩ := hs.call.single x (Or.inl (by simpa using hp))
  exact hs.returned (by rw [hdone]; trivial) x (by rw [hap]; rfl)

theorem afterMode_ne (cfg : Config) (i k : Nat) :
    cfg.afterMode BootPc.x2apicOps .harness ≠ .start i k := by
  unfold Config.afterMode
  split <;> simp

theorem phase_afterMode (cfg : Config) : phase (cfg.afterMode .x2apicOps .sti) = .up false := by
  unfold Config.afterMode
  split <;> rfl

/-- A group of `lapicstartap`, with the command at the other end. -/
theorem implements_startup (delay : Lapic → Nat) {i k : Nat} {ws : List (Nat × UInt32)}
    (hs : Reached cfg s) (h : Implements cfg m s) (h256 : cfg.apicid i < 256)
    (hboot : s.boot = .start i k)
    (hws : (lapicstartap (UInt8.ofNat (cfg.apicid i)) 0)[k]? = some ws) :
    ∃ dest msg cmd, (ws.foldl (lapicw (lapic delay)) (m.chip cfg.bsp)).core.outbox
        = [(startupCommand k, dest)] ∧ dest.toNat = cfg.apicid i ∧
      decode (startupCommand k) = some msg ∧ msg.command? = some cmd ∧
      Smp.lapicstartap[k]? = some cmd ∧
      Implements cfg
        (((m.setCpu (m.cpu.setBoot (if k + 1 < 4 then .start i (k + 1) else .wait i))).leave cfg.bsp
          (ws.foldl (lapicw (lapic delay)) (m.chip cfg.bsp))).receive (cfg.apicid i) msg)
        ((s.setAp (cfg.apicid i) (cmd.effect (s.ap (cfg.apicid i)))).setBoot
          (if k + 1 < 4 then .start i (k + 1) else .wait i)) := by
  have hk : k < Smp.lapicstartap.length := (List.getElem?_eq_some_iff.1 hws).1
  obtain ⟨msg, hmsg, hcmd⟩ := decode_startupCommand (List.getElem?_eq_getElem hk)
  obtain ⟨hout, hleave⟩ := implements_icrCommand delay
    (p := if k + 1 < 4 then .start i (k + 1) else .wait i) h hs.inv hboot hws (by
      intro j hj
      split_ifs at hj
      cases hj
      rfl)
  exact ⟨_, msg, _, hout, toNat_apicid h256, hmsg, hcmd, List.getElem?_eq_getElem hk,
    implements_command hleave hcmd (cfg.apicid i)⟩

/-- A step of the machine is a step of `smp`. -/
theorem forward {m' : Machine} (h256 : ∀ i, cfg.apicid i < 256) (hs : Reached cfg s)
    (h : Implements cfg m s) (hstep : Step cfg (lapic delay) m a m') :
    ∃ t, Smp.Step cfg s a t ∧ Implements cfg m' t := by
  have hbsp := lapicid_eq (D := lapic delay) h hs.bsp_lt
  have hid : ∀ x, s.ap x ≠ .off → lapicid (lapic delay) (m.chip x) = Smp.lapicid s x :=
    fun x hx => lapicid_eq h (hs.listed x hx)
  cases hstep with
  | quiet ha hcpu =>
    obtain ⟨hview, _, _, hphase, hboot⟩ := quiet_frame ha hcpu s.mode s.pending
    rw [h.cpu] at hview
    refine ⟨_, hview, h.same rfl rfl rfl (fun x => ?_) fun i hi => ?_⟩
    · rw [h.ap_eq]
      exact hphase x
    · rw [h.boot_eq]
      exact hboot i hi
  | bootSpurious hb =>
    rw [← h.boot_eq] at hb
    exact ⟨_, .bootSpurious hb, implements_bootSpurious h hs.inv hb⟩
  | skip hb hi hr =>
    rw [← h.boot_eq] at hb
    rw [hbsp] at hr ⊢
    exact ⟨_, .skip hb hi hr, implements_mycpu h (by simp) _⟩
  | startAp hb hi hr hne =>
    rw [← h.boot_eq] at hb
    rw [hbsp] at hr ⊢
    exact ⟨_, .startAp hb hi hr hne, implements_mycpu h (by simp) _⟩
  | @icrCommand i k ws c val dest msg cmd hb hws hc hout hmsg hcmd =>
    rw [← h.boot_eq] at hb
    obtain ⟨dest', msg', cmd', hout', hdest, hmsg', hcmd', hsmp, himpl⟩ :=
      implements_startup delay hs h (h256 i) hb hws
    rw [hc, hout] at hout'
    cases hout'
    cases hmsg.symm.trans hmsg'
    cases hcmd.symm.trans hcmd'
    rw [hc] at himpl
    rw [hdest]
    exact ⟨_, .icrCommand hb hsmp, himpl⟩
  | bootMode hb hc =>
    rw [← h.boot_eq] at hb
    obtain ⟨c, hok, himpl⟩ :=
      implements_enableMode_boot delay h hs.inv hb (afterMode_ne cfg)
    rw [hok] at hc
    cases hc
    exact ⟨_, .bootMode hb, himpl⟩
  | @sendIpi x ops fuel c val dest msg hb hc hout hmsg =>
    rw [← h.boot_eq] at hb
    have hx : x < 256 := by
      have hcalled := hs.called
      rw [hb] at hcalled
      exact hcalled
    obtain ⟨c', hout', _, hunique, himpl⟩ := implements_sendIpi delay h hs.inv hb hx
    cases hunique fuel c hc
    cases hout.symm.trans hout'
    cases hmsg.symm.trans (show decode ipiCommand = some (.fixed IPI_VECTOR) by decide)
    rw [toNat_ofNat hx]
    refine ⟨_, .sendIpi hb, implements_ipi himpl ?_⟩
    exact hs.returned (by rw [hb]; trivial) x
  | printStarting hap hr =>
    rw [← h.ap_eq] at hap
    rw [hid _ (by rw [hap]; simp)] at hr ⊢
    exact ⟨_, .printStarting hap hr, implements_printStarting h hap _⟩
  | spurious hap =>
    rw [← h.ap_eq] at hap
    exact ⟨_, .spurious hap, implements_spurious h hs.inv hap (hs.not_pending hap)⟩
  | setStarted hap hr =>
    rw [← h.ap_eq] at hap
    rw [hid _ (by rw [hap]; simp)] at hr ⊢
    exact ⟨_, .setStarted hap hr, implements_setStarted h hap _ _⟩
  | apMode hap hc =>
    rw [← h.ap_eq] at hap
    obtain ⟨c, hok, himpl⟩ :=
      implements_apMode delay h hs.inv hap (phase_afterMode cfg)
    rw [hok] at hc
    cases hc
    exact ⟨_, .apMode hap, himpl⟩
  | deliver hap hv =>
    rw [← h.ap_eq] at hap
    have hpending := (delivers_iff h hap).1 hv
    exact ⟨_, .deliver hap hpending, implements_deliver h hap hpending⟩
  | eoi hap hc =>
    rw [← h.ap_eq] at hap
    obtain ⟨c, hok, himpl⟩ := implements_eoi delay h hs.inv hap
    rw [hok] at hc
    cases hc
    exact ⟨_, .eoi hap, himpl⟩

/-- The machine can take every step of `smp`: no access faults, is lost or
spins for ever. -/
theorem backward (h256 : ∀ i, cfg.apicid i < 256) (hs : Reached cfg s) (h : Implements cfg m s)
    (hstep : Smp.Step cfg s a t) : ∃ m', Step cfg (lapic delay) m a m' ∧ Implements cfg m' t := by
  have hbsp := lapicid_eq (D := lapic delay) h hs.bsp_lt
  have hid : ∀ x, s.ap x ≠ .off → lapicid (lapic delay) (m.chip x) = Smp.lapicid s x :=
    fun x hx => lapicid_eq h (hs.listed x hx)
  have hquiet : Quiet a → ∃ m', Step cfg (lapic delay) m a m' ∧ Implements cfg m' t := by
    intro ha
    obtain ⟨hview, hmode, hpending, hphase, hboot⟩ :=
      quiet_frame ha hstep m.cpu.mode m.cpu.pending
    rw [h.cpu_eq] at hview
    exact ⟨_, .quiet ha hview, h.same rfl hmode hpending hphase hboot⟩
  cases hstep with
  | bootSpurious hb =>
    exact ⟨_, .bootSpurious (h.boot_eq.symm.trans hb), implements_bootSpurious h hs.inv hb⟩
  | skip hb hi hr =>
    refine ⟨_, .skip (h.boot_eq.symm.trans hb) hi (by rw [hbsp]; exact hr), ?_⟩
    rw [hbsp]
    exact implements_mycpu h (by simp) _
  | startAp hb hi hr hne =>
    refine ⟨_, .startAp (h.boot_eq.symm.trans hb) hi (by rw [hbsp]; exact hr) hne, ?_⟩
    rw [hbsp]
    exact implements_mycpu h (by simp) _
  | @icrCommand i k cmd hb hcmd =>
    have hk : k < (lapicstartap (UInt8.ofNat (cfg.apicid i)) 0).length :=
      (List.getElem?_eq_some_iff.1 hcmd).1
    obtain ⟨dest, msg, cmd', hout, hdest, hmsg, hcmd', hsmp, himpl⟩ :=
      implements_startup delay hs h (h256 i) hb (List.getElem?_eq_getElem hk)
    cases hcmd.symm.trans hsmp
    have hsend := Step.icrCommand (h.boot_eq.symm.trans hb) (List.getElem?_eq_getElem hk) rfl hout
      hmsg hcmd'
    rw [hdest] at hsend
    exact ⟨_, hsend, himpl⟩
  | bootMode hb =>
    obtain ⟨c, hok, himpl⟩ :=
      implements_enableMode_boot delay h hs.inv hb (afterMode_ne cfg)
    exact ⟨_, .bootMode (h.boot_eq.symm.trans hb) hok, himpl⟩
  | @sendIpi x ops hb =>
    have hx : x < 256 := by
      have hcalled := hs.called
      rw [hb] at hcalled
      exact hcalled
    obtain ⟨c, hout, ⟨fuel, hok⟩, _, himpl⟩ :=
      implements_sendIpi delay h hs.inv hb hx
    have harrived := implements_ipi himpl (hs.returned (by rw [hb]; trivial) x)
    have hsend := Step.sendIpi (h.boot_eq.symm.trans hb) hok hout
      (show decode ipiCommand = some (.fixed IPI_VECTOR) by decide)
    rw [toNat_ofNat hx] at hsend
    exact ⟨_, hsend, harrived⟩
  | printStarting hap hr =>
    have hx := hid _ (by rw [hap]; simp)
    refine ⟨_, .printStarting ((congrFun h.ap_eq _).symm.trans hap) (by rw [hx]; exact hr), ?_⟩
    rw [hx]
    exact implements_printStarting h hap _
  | spurious hap =>
    exact ⟨_, .spurious ((congrFun h.ap_eq _).symm.trans hap),
      implements_spurious h hs.inv hap (hs.not_pending hap)⟩
  | setStarted hap hr =>
    have hx := hid _ (by rw [hap]; simp)
    refine ⟨_, .setStarted ((congrFun h.ap_eq _).symm.trans hap) (by rw [hx]; exact hr), ?_⟩
    rw [hx]
    exact implements_setStarted h hap _ _
  | apMode hap =>
    obtain ⟨c, hok, himpl⟩ :=
      implements_apMode delay h hs.inv hap (phase_afterMode cfg)
    exact ⟨_, .apMode ((congrFun h.ap_eq _).symm.trans hap) hok, himpl⟩
  | deliver hap hp =>
    exact ⟨_, .deliver ((congrFun h.ap_eq _).symm.trans hap) ((delivers_iff h hap).2 hp),
      implements_deliver h hap hp⟩
  | eoi hap =>
    obtain ⟨c, hok, himpl⟩ := implements_eoi delay h hs.inv hap
    exact ⟨_, .eoi ((congrFun h.ap_eq _).symm.trans hap) hok, himpl⟩
  | _ => exact hquiet trivial

end Steps

/-- A machine stands for some state of `smp` at the start. -/
theorem implements_init {cfg : Config} {D : Device Lapic} {m : Machine}
    (h : (machine cfg D).Init m) : (Smp.smp cfg).Init m.cpu ∧ Implements cfg m m.cpu := by
  obtain ⟨hcpu, hchip⟩ := h
  refine ⟨hcpu, rfl, fun x => ?_, fun i hi => ?_⟩
  · obtain ⟨hap, hmode, _⟩ := hcpu.2.2.2 x
    obtain ⟨hm, hid, hout⟩ := hchip x
    refine ⟨?_, hid, hout, ?_⟩
    · rw [hmode]
      exact hm
    · rw [hap]
      trivial
  · rw [hcpu.1] at hi
    cases hi

/-- The chips as the firmware may leave them. -/
def firstChip (x : Nat) : Chip Lapic where
  base := 0xfee00800
  id := UInt32.ofNat x
  icr := 0
  icr2 := 0
  busy := 0
  core := .reset

/-- The machine of registers and `smp` have the same runs.  So every access to
a local APIC goes through the interface that its mode has, every command
arrives at the processor that it is for, every loop on the command register
ends, and every interrupt of `__on_cpu` is delivered to a chip that is enabled
and has nothing in service. -/
theorem registers_bisimulate {cfg : Config} (hbsp : cfg.bsp ∈ cfg.apicids)
    (h256 : ∀ y ∈ cfg.apicids, y < 256) (delay : Lapic → Nat) (as : List Action) :
    (∀ m, Run (machine cfg (lapic delay)) as m →
      ∃ s, Run (Smp.smp cfg) as s ∧ Implements cfg m s) ∧
    ∀ s, Run (Smp.smp cfg) as s →
      ∃ m, Run (machine cfg (lapic delay)) as m ∧ Implements cfg m s := by
  have hlt := apicid_lt_of_table h256
  constructor
  · intro m hrun
    refine hrun.simulate (Implements cfg) (fun m hm => ⟨_, implements_init hm⟩) ?_
    intro as m s a m' _ hs h hstep
    exact forward hlt (reached_of_run hbsp h256 hs) h hstep
  · intro s hrun
    refine hrun.simulate (fun s m => Implements cfg m s) (fun s hs => ?_) ?_
    · have hinit : (machine cfg (lapic delay)).Init ⟨s, firstChip⟩ :=
        ⟨hs, fun x => ⟨(by decide : modeOf 0xfee00800 = some .xapic), rfl, rfl⟩⟩
      exact ⟨_, hinit, (implements_init hinit).2⟩
    · intro as s m a t hs _ h hstep
      exact backward hlt (reached_of_run hbsp h256 hs) h hstep

/-- Two processors come up when every command keeps the register busy for
three reads. -/
theorem registers_bisimulate_twoCpus : ∃ as m,
    Run (machine Smp.twoCpus (lapic fun _ => 3)) as m ∧ m.cpu.boot = .ready := by
  obtain ⟨as, s, hrun, hready, _⟩ := Smp.twoCpus_ready []
  obtain ⟨m, hm, himpl⟩ := (registers_bisimulate (by decide) (by decide) (fun _ => 3) as).2 s
    (Smp.boots_run hrun)
  exact ⟨as, m, hm, himpl.boot_eq.symm.trans hready⟩

end HyperBench.Apic

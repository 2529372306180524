import HyperBench.Mp
import HyperBench.SmpStart
import Mathlib.Logic.Relation

/-!
# The target of the benchmark `ipi`

`benchmark/ipi.c` calls `on_cpu(1, nop, 0)`, so the interrupt goes to
`cpus[1].apicid`, whatever the table says.  `ipi_target_iff` says for which
tables this is another processor that is up.

* `StartInv` gives the good direction: behind `startothers` every other
  processor of `cpus` is up.
* For the other direction a run has to be found.  `reach_loop` takes the boot
  processor through its loop, and each application processor through
  `mpenter`, and `reach_send` from there to the interrupt.
-/

namespace HyperBench.Smp

open Transition Function Relation

/-- The machine while only `ipi` calls `on_cpu`. -/
def ipiBenchmark (cfg : Config) : System State Action where
  Init := (smp cfg).Init
  Step s a t := Step cfg s a t ∧ ∀ x, a = .onCpu x → x = cfg.apicid 1

theorem run_of_ipiBenchmark {cfg : Config} {as : List Action} {s : State}
    (hrun : Run (ipiBenchmark cfg) as s) : Run (smp cfg) as s := by
  induction hrun with
  | init hinit => exact .init hinit
  | step _ hstep ih => exact ih.step hstep.1

/-! ## The good direction -/

namespace BootPc

/-- The processor that a call of `on_cpu` is for. -/
def callee : BootPc → Option Nat
  | clear x | load x | icr x _ | done x => some x
  | _ => none

end BootPc

section Good

variable {cfg : Config} {as : List Action} {s t : State} {a : Action} {x : Nat}

theorem callee_step (h : ∀ x, s.boot.callee = some x → x = cfg.apicid 1)
    (hstep : (ipiBenchmark cfg).Step s a t) : ∀ x, t.boot.callee = some x → x = cfg.apicid 1 := by
  rcases hstep with ⟨hstep, hcall⟩
  intro x hx
  cases hstep with
  | onCpu i hb =>
    rw [← Option.some.inj hx]
    exact hcall _ rfl
  | @clear y hb | @loadIcr y hb | @sendIpi y ops hb => exact h x (by rw [hb]; exact hx)
  | @readDone y hb =>
    refine h x ?_
    rw [hb]
    change BootPc.callee (if s.ipiDone then .ready else .done y) = some x at hx
    split at hx
    · exact absurd hx (by simp [BootPc.callee])
    · exact hx
  | bootEnable | bootSpurious | skip | startAp | allStarted | bootOps | pin =>
    exact absurd hx (by simp [State.setBoot, BootPc.callee])
  | @icrCommand i k cmd hb hcmd =>
    change BootPc.callee (if k + 1 < lapicstartap.length then .start i (k + 1) else .wait i) = _ at hx
    split at hx <;> exact absurd hx (by simp [BootPc.callee])
  | @poll i hb =>
    change BootPc.callee (if s.started i then .loop (i + 1) else .wait i) = _ at hx
    split at hx <;> exact absurd hx (by simp [BootPc.callee])
  | bootMode hb =>
    change BootPc.callee (cfg.afterMode .x2apicOps .harness) = _ at hx
    unfold Config.afterMode at hx
    split at hx <;> exact absurd hx (by simp [BootPc.callee])
  | _ => exact h x hx

theorem callee_run (hrun : Run (ipiBenchmark cfg) as s) :
    ∀ x, s.boot.callee = some x → x = cfg.apicid 1 := by
  refine hrun.invariant (fun _ s => ∀ x, s.boot.callee = some x → x = cfg.apicid 1) ?_ ?_
  · rintro s ⟨hboot, _⟩ x hx
    rw [hboot] at hx
    exact absurd hx (by simp [BootPc.callee])
  · exact fun _ _ _ _ h hstep => callee_step h hstep

end Good

/-! ## Runs -/

/-- One state leads to another. -/
def Reach (cfg : Config) : State → State → Prop :=
  ReflTransGen fun s t => ∃ a, (ipiBenchmark cfg).Step s a t

section Reach

variable {cfg : Config} {as : List Action} {s t u : State} {a : Action} {x i : Nat}

theorem Reach.run (hreach : Reach cfg s t) (hrun : Run (ipiBenchmark cfg) as s) :
    ∃ bs, Run (ipiBenchmark cfg) bs t := by
  induction hreach with
  | refl => exact ⟨as, hrun⟩
  | tail _ hstep ih =>
    rcases ih with ⟨bs, hbs⟩
    rcases hstep with ⟨a, ha⟩
    exact ⟨_, hbs.step ha⟩

theorem Reach.step (hreach : Reach cfg s t) (hstep : Step cfg t a u)
    (ha : ∀ y, a = .onCpu y → y = cfg.apicid 1) : Reach cfg s u :=
  ReflTransGen.tail hreach ⟨a, hstep, ha⟩

/-- A processor that has its start-up interrupt comes up, and the boot
processor goes on. -/
theorem reach_up (hboot : s.boot = .wait i) (hi : i < cfg.apicids.length)
    (hap : s.ap (cfg.apicid i) = .trampoline) (hmode : s.mode (cfg.apicid i) = .xapic) :
    ∃ t, Reach cfg s t ∧ t.boot = .loop (i + 1) := by
  have hown : ∀ t : State, t.mode (cfg.apicid i) = .xapic → Mycpu cfg t (cfg.apicid i) i :=
    fun t ht => .of_mode ht hi rfl
  have hrefl : Reach cfg s s := .refl
  have hstack := hrefl.step (.stack hap) (by simp)
  have hstarting := hstack.step (.printStarting (update_self _ _ _) (hown _ hmode)) (by simp)
  have henabling := hstarting.step (.printEnabling (update_self _ _ _)) (by simp)
  have hspurious := henabling.step (.spurious (update_self _ _ _)) (by simp)
  have hstarted := hspurious.step (.setStarted (update_self _ _ _) (hown _ hmode)) (by simp)
  refine ⟨_, hstarted.step (.poll hboot) (by simp), ?_⟩
  show (if update s.started i true i then BootPc.loop (i + 1) else .wait i) = _
  rw [update_self]
  rfl

/-- The commands of `lapicstartap` bring a processor to its start-up
interrupt. -/
theorem reach_commands (cfg : Config) (hboot : s.boot = .start i 0) :
    ∃ t, Reach cfg s t ∧ t.boot = .wait i ∧ t.ap (cfg.apicid i) = .trampoline ∧
      t.mode = s.mode := by
  have hrefl : Reach cfg s s := .refl
  have hassert := hrefl.step (.icrCommand hboot rfl) (by simp)
  have hdeassert := hassert.step (.icrCommand (i := i) (k := 1) rfl rfl) (by simp)
  have hstartup := hdeassert.step (.icrCommand (i := i) (k := 2) rfl rfl) (by simp)
  refine ⟨_, hstartup.step (.icrCommand (i := i) (k := 3) rfl rfl) (by simp), rfl, ?_, rfl⟩
  simp [State.setBoot, State.setAp, IcrCommand.effect]

theorem mycpu_mem {r : Nat} (hmode : s.mode x = .xapic) (hr : mycpu cfg s x = some r) :
    x ∈ cfg.apicids := by
  have hid : lapicid s x = x := by
    unfold lapicid
    rw [hmode]
  rw [mycpu, hid, List.findIdx?_eq_some_iff_getElem] at hr
  rcases hr with ⟨hlt, heq, _⟩
  have hx : cfg.apicids[r] = x := by simpa using heq
  rw [← hx]
  exact List.getElem_mem hlt

/-- One round of the loop of `startothers`.  Where `mycpu` has no answer the
entry may be skipped. -/
theorem reach_next (hinv : Inv cfg s) (hboot : s.boot = .loop i) (hi : i < cfg.apicids.length) :
    ∃ t, Reach cfg s t ∧ t.boot = .loop (i + 1) ∧ (cfg.bsp ∉ cfg.apicids → t.ap = s.ap) := by
  have hrefl : Reach cfg s s := .refl
  have hmode : s.mode cfg.bsp = .xapic := by
    rw [hinv.bootMode, hboot]
    rfl
  by_cases hown : Mycpu cfg s cfg.bsp i
  · exact ⟨_, hrefl.step (.skip hboot hi hown) (by simp), rfl, fun _ => rfl⟩
  · -- `mycpu` answers with another entry, so this one is started
    unfold Mycpu at hown
    push Not at hown
    rcases hown with ⟨r, hr, hne⟩
    have hanswer : Mycpu cfg s cfg.bsp r := fun j hj => Option.some.inj (hr.symm.trans hj)
    have hother := startAp_ne_bsp hinv hboot hi hanswer hne.symm
    have hstart := hrefl.step (.startAp hboot hi hanswer hne.symm) (by simp)
    rcases reach_commands (s := (s.print (unknownApicid cfg s cfg.bsp)).setBoot (.start i 0)) cfg rfl
      with ⟨u, hu, hwait, hap, hmodes⟩
    have humode : u.mode (cfg.apicid i) = .xapic := by
      have hoff : s.ap (cfg.apicid i) = .off := hinv.fresh i hi (by rw [hboot]; exact Nat.le_refl i)
      rw [hmodes]
      show s.mode (cfg.apicid i) = .xapic
      rw [hinv.apMode _ hother, hoff]
      rfl
    rcases reach_up hwait hi hap humode with ⟨t, ht, hloop⟩
    exact ⟨t, (hstart.trans hu).trans ht, hloop, fun hbsp => absurd (mycpu_mem hmode hr) hbsp⟩

/-- The boot processor comes to every round. -/
theorem reach_loop (cfg : Config) (i : Nat) (hi : i ≤ cfg.apicids.length) :
    ∃ as s, Run (ipiBenchmark cfg) as s ∧ s.boot = .loop i ∧
      (cfg.bsp ∉ cfg.apicids → ∀ x, s.ap x = .off) := by
  induction i with
  | zero =>
    have hinit : (ipiBenchmark cfg).Init bootState :=
      ⟨rfl, rfl, rfl, fun _ => ⟨rfl, rfl, rfl, rfl, rfl⟩⟩
    have henable := (Run.init hinit).step ⟨.bootEnable rfl, by simp⟩
    exact ⟨_, _, henable.step ⟨.bootSpurious rfl, by simp⟩, rfl, fun _ _ => rfl⟩
  | succ i ih =>
    rcases ih (by omega) with ⟨as, s, hrun, hboot, hoff⟩
    rcases reach_next (inv_run (run_of_ipiBenchmark hrun)) hboot (by omega) with ⟨t, ht, hloop, hsame⟩
    rcases ht.run hrun with ⟨bs, hbs⟩
    refine ⟨bs, t, hbs, hloop, fun hbsp => ?_⟩
    rw [hsame hbsp]
    exact hoff hbsp

/-- From the end of `startothers` to the interrupt. -/
theorem reach_send (cfg : Config) (hboot : s.boot = .loop cfg.apicids.length) :
    ∃ t ops, Reach cfg s t ∧ t.boot = .icr (cfg.apicid 1) ops ∧ t.ap = s.ap := by
  have hrefl : Reach cfg s s := .refl
  have hall := hrefl.step (.allStarted hboot (Nat.le_refl _)) (by simp)
  have hmode := hall.step (.bootMode rfl) (by simp)
  rcases afterMode_cases cfg BootPc.x2apicOps .harness with ⟨_, hpc, _⟩ | ⟨_, hpc, _⟩
  · have hops := hmode.step (.bootOps hpc) (by simp)
    have hpin := hops.step (.pin rfl) (by simp)
    have hcall := hpin.step (.onCpu 1 rfl) (by simp)
    exact ⟨_, _, (hcall.step (.clear rfl) (by simp)).step (.loadIcr rfl) (by simp), rfl, rfl⟩
  · have hpin := hmode.step (.pin hpc) (by simp)
    have hcall := hpin.step (.onCpu 1 rfl) (by simp)
    exact ⟨_, _, (hcall.step (.clear rfl) (by simp)).step (.loadIcr rfl) (by simp), rfl, rfl⟩

end Reach

/-! ## The target -/

/-- What the benchmark needs of the processor that it sends its interrupt
to: it is one of those that the table lists, it is not the boot processor,
and it has set its flag. -/
structure OtherCpu (cfg : Config) (procs : List Nat) (s : State) (x : Nat) : Prop where
  listed : x ∈ procs
  ne_bsp : x ≠ cfg.bsp
  up : 7 ≤ (s.ap x).rank

section Target

variable {cfg : Config} {procs : List Nat}

/-- The interrupts of `ipi` all go to another processor that is up. -/
def TargetsOther (cfg : Config) (procs : List Nat) : Prop :=
  ∀ as s x ops t, Run (ipiBenchmark cfg) as s → (ipiBenchmark cfg).Step s (.sendIpi x ops) t →
    OtherCpu cfg procs s x

theorem targetsOther_of_second (hcfg : cfg.apicids = procs.take NCPU) (hbsp : cfg.bsp ∈ cfg.apicids)
    (hlen : 1 < cfg.apicids.length) (hne : cfg.apicid 1 ≠ cfg.bsp) : TargetsOther cfg procs := by
  intro as s x ops t hrun hstep
  have hboot : s.boot = .icr x ops := by
    rcases hstep with ⟨hstep, _⟩
    cases hstep with
    | sendIpi hb => exact hb
  have hx : x = cfg.apicid 1 := callee_run hrun x (by rw [hboot]; rfl)
  have hmem : x ∈ cfg.others := Config.mem_others.2 ⟨hx ▸ hne, 1, hlen, hx.symm⟩
  refine ⟨?_, hx ▸ hne, ?_⟩
  · apply List.mem_of_mem_take (i := NCPU)
    rw [← hcfg, hx, Config.apicid_eq hlen]
    exact List.getElem_mem hlen
  · exact (startInv_run hbsp (run_of_ipiBenchmark hrun)).rank_of_returned (by rw [hboot]; trivial) hmem

/-- There is a run that sends an interrupt. -/
theorem exists_send (cfg : Config) :
    ∃ as s ops t, Run (ipiBenchmark cfg) as s ∧
      (ipiBenchmark cfg).Step s (.sendIpi (cfg.apicid 1) ops) t ∧
      (cfg.bsp ∉ cfg.apicids → ∀ x, s.ap x = .off) := by
  rcases reach_loop cfg _ (Nat.le_refl _) with ⟨as, s, hrun, hloop, hoff⟩
  rcases reach_send cfg hloop with ⟨t, ops, hreach, hboot, hap⟩
  rcases hreach.run hrun with ⟨bs, hbs⟩
  refine ⟨bs, t, ops, _, hbs, ⟨.sendIpi hboot, by simp⟩, fun hbsp => ?_⟩
  rw [hap]
  exact hoff hbsp

theorem targetsOther_iff (hcfg : cfg.apicids = procs.take NCPU) (hbsp : cfg.bsp ∈ procs) :
    TargetsOther cfg procs ↔
      cfg.bsp ∈ procs.take NCPU ∧ ∃ id, procs[1]? = some id ∧ id ≠ cfg.bsp := by
  have hsecond : ∀ id, procs[1]? = some id → 1 < cfg.apicids.length ∧ cfg.apicid 1 = id := by
    intro id hid
    have htake : cfg.apicids[1]? = some id := by
      rw [hcfg, List.getElem?_take_of_lt (by decide), hid]
    refine ⟨(List.getElem?_eq_some_iff.1 htake).1, ?_⟩
    rw [Config.apicid, List.getD_eq_getElem?_getD, htake]
    rfl
  constructor
  · intro htargets
    rcases exists_send cfg with ⟨as, s, ops, t, hrun, hstep, hoff⟩
    have htarget := htargets as s _ ops t hrun hstep
    constructor
    · rw [← hcfg]
      by_contra hunlisted
      have hup := htarget.up
      rw [hoff hunlisted] at hup
      exact absurd hup (by decide)
    · rcases procs with _ | ⟨a, _ | ⟨b, procs⟩⟩
      · exact absurd hbsp (by simp)
      · -- the only processor is the boot processor
        have hlisted := htarget.listed
        rw [List.mem_singleton] at hbsp hlisted
        exact absurd (hlisted.trans hbsp.symm) htarget.ne_bsp
      · refine ⟨b, rfl, ?_⟩
        rw [← (hsecond b rfl).2]
        exact htarget.ne_bsp
  · rintro ⟨hmem, id, hid, hne⟩
    rcases hsecond id hid with ⟨hlen, hsame⟩
    exact targetsOther_of_second hcfg (hcfg ▸ hmem) hlen (hsame ▸ hne)

end Target

/-! ## The tables -/

open Mp ByteMem

/-- For every table that `mpconfig` accepts and that lists the boot
processor: the interrupts go to another processor that is up exactly if the
second processor entry is there and is not the one of the boot processor,
and the boot processor is one of those that fit into `cpus`. -/
theorem ipi_target_iff {m : Mem} {conf boot fuel : Nat} {es : List Entry}
    (htable : TableAt m conf es) (hfuel : es.length < fuel) (hnodup : (procIds es).Nodup)
    (hboot : boot ∈ procIds es) (x2apic : Bool) :
    ∃ g cfg, (mpinit fuel .start).val m = some g ∧ cfg.apicids = g.apicids ∧
      (∀ i, cfg.apicid i = (g.cpus i).toNat) ∧ cfg.bsp = boot ∧ cfg.x2apic = x2apic ∧
      (TargetsOther cfg (procIds es) ↔
        boot ∈ (procIds es).take NCPU ∧ ∃ id, (procIds es)[1]? = some id ∧ id ≠ boot) := by
  have happly := mpinit_table (g := .start) htable hfuel
  have happicids := apicids_table es
    (g := { Globals.start with lapic := load m (conf + 36) 4 }) (Nat.zero_le _)
  have hzero := cpus_table es (g := { Globals.start with lapic := load m (conf + 36) 4 })
    (fun _ _ => rfl)
  generalize es.foldl (fun g e => e.effect g) _ = g at happly happicids hzero
  have hcfg : g.apicids = (procIds es).take NCPU := happicids
  let cfg : Config := ⟨g.apicids, boot, x2apic, hcfg ▸ hnodup.sublist (List.take_sublist _ _),
    hcfg ▸ List.length_take_le _ _⟩
  have hlisted : cfg.apicids = (procIds es).take NCPU := hcfg
  exact ⟨g, cfg, happly, rfl, Globals.apicids_getD hzero, rfl, rfl, targetsOther_iff hlisted hboot⟩

/-- A machine with one processor. -/
def soleCpu : Config where
  apicids := [0]
  bsp := 0
  x2apic := false
  nodup := by decide
  length_le := by decide

def soleEntries : List Entry :=
  [.proc 0 #v[0x14, 3, 0, 0, 0, 0, 0, 0, 0, 0, 0, 0, 0, 0, 0, 0, 0, 0]]

/-- Its floating pointer structure and the header of its table. -/
def soleHeader : List UInt8 :=
  [0x5f, 0x4d, 0x50, 0x5f, 0x10, 0x00, 0x0f, 0x00, 0x01, 0x04, 0x81, 0, 0, 0, 0, 0,
    0x50, 0x43, 0x4d, 0x50, 0x40, 0x00, 0x04, 0x96, 0, 0, 0, 0, 0, 0, 0, 0, 0, 0, 0, 0,
    0, 0, 0, 0, 0, 0, 0, 0, 0, 0, 0, 0, 0, 0, 0x01, 0x00, 0x00, 0x00, 0xe0, 0xfe, 0, 0, 0, 0]

def soleMemory : Mem := fun a =>
  if 0xf0000 ≤ a then (soleHeader ++ soleEntries.flatMap Entry.bytes).getD (a - 0xf0000) 0 else 0

theorem soleTable : TableAt soleMemory 0xf0010 soleEntries where
  accepted := by decide +kernel
  ne_null := by decide
  length_eq := by decide +kernel
  entries := holds_rom soleHeader _

theorem ipi_target_iff_sole : ∃ g cfg, (mpinit 2 .start).val soleMemory = some g ∧
    cfg.apicids = g.apicids ∧ (∀ i, cfg.apicid i = (g.cpus i).toNat) ∧ cfg.bsp = 0 ∧
    cfg.x2apic = false ∧ (TargetsOther cfg (procIds soleEntries) ↔
      0 ∈ (procIds soleEntries).take NCPU ∧ ∃ id, (procIds soleEntries)[1]? = some id ∧ id ≠ 0) :=
  ipi_target_iff soleTable (by decide) (by decide) (by decide) false

/-- With one processor the boot processor sends the interrupt to itself. -/
theorem ipi_targets_itself_soleCpu :
    TableAt soleMemory 0xf0010 soleEntries ∧ soleCpu.apicids = procIds soleEntries ∧
      ∃ as s ops t, Run (ipiBenchmark soleCpu) as s ∧
        (ipiBenchmark soleCpu).Step s (.sendIpi soleCpu.bsp ops) t ∧
        ¬ OtherCpu soleCpu (procIds soleEntries) s soleCpu.bsp := by
  rcases exists_send soleCpu with ⟨as, s, ops, t, hrun, hstep, _⟩
  exact ⟨soleTable, rfl, as, s, ops, t, hrun, hstep, fun h => h.ne_bsp rfl⟩

end HyperBench.Smp

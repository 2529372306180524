import HyperBench.SmpLive

/-!
# The calls of `on_cpu` come back

`__on_cpu` waits until the handler on the other processor has set `ipi_done`.
It does not look whether there is such a processor.

* `CallInv` follows the one interrupt of a call: it is pending at its target,
  or the target is in front of the store of the handler, or `ipi_done` is set.
* `clear_leadsTo_ready` is the good case, and `done_forever` the bad one.
* `call_returns_iff` puts them together.
-/

namespace HyperBench.Smp

open Transition Function

@[simp] theorem State.setBoot_boot (s : State) (pc : BootPc) : (s.setBoot pc).boot = pc := rfl

/-! ## The interrupt of a call -/

structure CallInv (s : State) : Prop where
  single : ∀ x, s.pending x = true ∨ s.ap x = .store → s.boot = .done x ∧ s.ipiDone = false
  exclusive : ∀ x, s.pending x = true → s.ap x ≠ .store
  waiting : ∀ x, s.boot = .done x → s.ipiDone = false → s.pending x = true ∨ s.ap x = .store
  cleared : ∀ x, (s.boot = .load x ∨ ∃ ops, s.boot = .icr x ops) → s.ipiDone = false

theorem callInv_init {cfg : Config} {s : State} (h : (smp cfg).Init s) : CallInv s := by
  obtain ⟨hboot, _, _, hoff⟩ := h
  have hap : ∀ x, s.ap x = .off := fun x => (hoff x).1
  have hpending : ∀ x, s.pending x = false := fun x => (hoff x).2.2.2.2
  constructor <;> simp [hboot, hap, hpending]

section Steps

variable {cfg : Config} {s t : State} {a : Action} {x : Nat}

/-- A step that has nothing to do with the interrupt. -/
theorem CallInv.of_same (h : CallInv s) (hboot : t.boot = s.boot) (hdone : t.ipiDone = s.ipiDone)
    (hpending : t.pending = s.pending) (hstore : ∀ x, t.ap x = .store ↔ s.ap x = .store) :
    CallInv t := by
  refine ⟨?_, ?_, ?_, ?_⟩
  · intro x hx
    rw [hpending, hstore] at hx
    rw [hboot, hdone]
    exact h.single x hx
  · intro x hx
    rw [hpending] at hx
    exact fun hap => h.exclusive x hx ((hstore x).1 hap)
  · intro x hx hd
    rw [hboot] at hx
    rw [hdone] at hd
    rw [hpending, hstore]
    exact h.waiting x hx hd
  · intro x hx
    rw [hboot] at hx
    rw [hdone]
    exact h.cleared x hx

/-- An application processor that neither enters its handler nor stores. -/
theorem CallInv.ap_move {p q : ApPc} (h : CallInv s) (hap : s.ap x = p) (hp : p ≠ .store)
    (hq : q ≠ .store) (hboot : t.boot = s.boot) (hdone : t.ipiDone = s.ipiDone)
    (hpending : t.pending = s.pending) (hap' : t.ap = update s.ap x q) : CallInv t := by
  refine h.of_same hboot hdone hpending fun y => ?_
  rw [hap']
  by_cases hy : y = x
  · rw [hy, update_self, hap]
    exact ⟨fun he => absurd he hq, fun he => absurd he hp⟩
  · rw [update_of_ne hy]

/-- There is no interrupt outside of `while(!ipi_done)`. -/
theorem CallInv.quiet (h : CallInv s) (hboot : ∀ x, s.boot ≠ .done x) (x : Nat) :
    s.pending x = false ∧ s.ap x ≠ .store := by
  constructor
  · by_contra hne
    exact hboot x (h.single x (Or.inl (by simpa using hne))).1
  · exact fun hap => hboot x (h.single x (Or.inr hap)).1

/-- A step of the boot processor outside of `while(!ipi_done)`. -/
theorem CallInv.boot_move {q : BootPc} (h : CallInv s) (hs : ∀ x, s.boot ≠ .done x)
    (hboot : t.boot = q) (hq : ∀ x, q ≠ .done x)
    (hcleared : ∀ x, (q = .load x ∨ ∃ ops, q = .icr x ops) → t.ipiDone = false)
    (hpending : t.pending = s.pending) (hstore : ∀ x, t.ap x = .store → s.ap x = .store) :
    CallInv t := by
  have hnone : ∀ x, ¬ (t.pending x = true ∨ t.ap x = .store) := by
    rintro x (hx | hx)
    · rw [hpending, (h.quiet hs x).1] at hx
      exact absurd hx (by decide)
    · exact (h.quiet hs x).2 (hstore x hx)
  refine ⟨fun x hx => absurd hx (hnone x), fun x hx => absurd (Or.inl hx) (hnone x), ?_, ?_⟩
  · exact fun x hx => absurd (hboot.symm.trans hx) (hq x)
  · exact fun x hx => hcleared x (hboot ▸ hx)

theorem effect_eq_store {cmd : IcrCommand} {pc : ApPc} (h : cmd.effect pc = .store) :
    pc = .store := by
  cases cmd <;> cases pc <;> simp_all [IcrCommand.effect]

theorem callInv_sendIpi {ops : Mode} (h : CallInv s) (hboot : s.boot = .icr x ops) :
    CallInv ({ s with pending := update s.pending x true }.setBoot (.done x)) := by
  have hquiet := h.quiet (by simp [hboot])
  have hdone := h.cleared x (Or.inr ⟨ops, hboot⟩)
  have honly : ∀ y, update s.pending x true y = true → y = x := by
    intro y hy
    by_contra hne
    rw [update_of_ne hne, (hquiet y).1] at hy
    exact absurd hy (by decide)
  refine ⟨?_, ?_, ?_, ?_⟩
  · rintro y (hy | hy)
    · rw [honly y hy]
      exact ⟨rfl, hdone⟩
    · exact absurd hy (hquiet y).2
  · exact fun y _ => (hquiet y).2
  · rintro y hy -
    obtain rfl := BootPc.done.inj hy
    exact Or.inl (update_self _ _ _)
  · rintro y (hy | ⟨_, hy⟩) <;> exact absurd hy (by simp [State.setBoot])

theorem callInv_readDone (h : CallInv s) (hboot : s.boot = .done x) :
    CallInv (s.setBoot (if s.ipiDone then .ready else .done x)) := by
  cases hdone : s.ipiDone with
  | false => exact h.of_same hboot.symm rfl rfl fun _ => Iff.rfl
  | true =>
    have hnone : ∀ y, ¬ (s.pending y = true ∨ s.ap y = .store) := by
      intro y hy
      have hfalse := (h.single y hy).2
      rw [hdone] at hfalse
      exact absurd hfalse (by decide)
    refine ⟨fun y hy => absurd hy (hnone y), fun y hy => absurd (Or.inl hy) (hnone y), ?_, ?_⟩
    · exact fun y hy => absurd hy (by simp [State.setBoot])
    · rintro y (hy | ⟨_, hy⟩) <;> exact absurd hy (by simp [State.setBoot])

theorem callInv_deliver (h : CallInv s) (hp : s.pending x = true) :
    CallInv ({ s with pending := update s.pending x false }.setAp x .store) := by
  obtain ⟨hboot, hdone⟩ := h.single x (Or.inl hp)
  have hother : ∀ y, y ≠ x → ¬ (s.pending y = true ∨ s.ap y = .store) := by
    intro y hne hy
    exact hne (BootPc.done.inj ((h.single y hy).1.symm.trans hboot))
  refine ⟨?_, ?_, ?_, ?_⟩
  · intro y hy
    by_cases hyx : y = x
    · rw [hyx]
      exact ⟨hboot, hdone⟩
    · change update s.pending x false y = true ∨ update s.ap x .store y = .store at hy
      rw [update_of_ne hyx, update_of_ne hyx] at hy
      exact absurd hy (hother y hyx)
  · intro y hy
    change update s.pending x false y = true at hy
    by_cases hyx : y = x
    · rw [hyx, update_self] at hy
      exact absurd hy (by decide)
    · rw [update_of_ne hyx] at hy
      exact absurd (Or.inl hy) (hother y hyx)
  · intro y hy _
    obtain rfl : x = y := BootPc.done.inj (hboot.symm.trans hy)
    exact Or.inr (update_self _ _ _)
  · exact h.cleared

theorem callInv_store (h : CallInv s) (hap : s.ap x = .store) :
    CallInv ({ s with ipiDone := true }.setAp x .load) := by
  obtain ⟨hboot, _⟩ := h.single x (Or.inr hap)
  have hnone : ∀ y, ¬ (s.pending y = true ∨ update s.ap x .load y = .store) := by
    rintro y hy
    by_cases hyx : y = x
    · rw [hyx, update_self] at hy
      exact h.exclusive x (hy.resolve_right (by simp)) hap
    · rw [update_of_ne hyx] at hy
      exact hyx (BootPc.done.inj ((h.single y hy).1.symm.trans hboot))
  refine ⟨fun y hy => absurd hy (hnone y), fun y hy => absurd (Or.inl hy) (hnone y), ?_, ?_⟩
  · exact fun y _ hd => absurd hd (by simp [State.setAp])
  · rintro y (hy | ⟨_, hy⟩) <;> exact absurd (hboot.symm.trans hy) (by simp)

theorem callInv_step (h : CallInv s) (hstep : Step cfg s a t) : CallInv t := by
  cases hstep with
  | bootEnable hb | bootSpurious hb | skip hb | startAp hb | allStarted hb | bootOps hb | pin hb
  | onCpu _ hb =>
    exact h.boot_move (by simp [hb]) rfl (by simp) (by simp) rfl fun _ hx => hx
  | @icrCommand i k cmd hb =>
    refine h.boot_move (by simp [hb]) (State.setBoot_boot _ _) ?_ ?_ rfl ?_
    · intro y
      split <;> simp
    · intro y
      split <;> simp
    · intro y hy
      change update s.ap (cfg.apicid i) _ y = _ at hy
      by_cases hyx : y = cfg.apicid i
      · rw [hyx, update_self] at hy
        rw [hyx]
        exact effect_eq_store hy
      · rwa [update_of_ne hyx] at hy
  | @poll i hb =>
    refine h.boot_move (by simp [hb]) (State.setBoot_boot _ _) ?_ ?_ rfl fun _ hx => hx
    · intro y
      split <;> simp
    · intro y
      split <;> simp
  | bootMode hb =>
    refine h.boot_move (by simp [hb]) (State.setBoot_boot _ _) ?_ ?_ rfl fun _ hx => hx
    · intro y
      unfold Config.afterMode
      split <;> simp
    · intro y
      unfold Config.afterMode
      split <;> simp
  | clear hb => exact h.boot_move (by simp [hb]) rfl (by simp) (fun _ _ => rfl) rfl fun _ hx => hx
  | @loadIcr y hb =>
    exact h.boot_move (by simp [hb]) rfl (by simp) (fun _ _ => h.cleared y (Or.inl hb)) rfl
      fun _ hx => hx
  | sendIpi hb => exact callInv_sendIpi h hb
  | readDone hb => exact callInv_readDone h hb
  | deliver _ hp => exact callInv_deliver h hp
  | store ha => exact callInv_store h ha
  | stack ha | printStarting ha | printEnabling ha | spurious ha | setStarted ha | apOps ha | sti ha
  | loadEoi ha | eoi ha | iret ha =>
    exact h.ap_move ha (by simp) (by simp) rfl rfl rfl rfl
  | apMode ha =>
    refine h.ap_move (q := cfg.afterMode .x2apicOps .sti) ha (by simp) ?_ rfl rfl rfl rfl
    unfold Config.afterMode
    split <;> simp

end Steps

theorem callInv_run {cfg : Config} {as : List Action} {s : State} (hrun : Run (smp cfg) as s) :
    CallInv s :=
  hrun.invariant (fun _ s => CallInv s) (fun _ h => callInv_init h)
    fun _ _ _ _ h hstep => callInv_step h hstep

/-! ## The way to the store of the handler -/

/-- The steps of a started processor up to the store of the handler that an
interrupt leads to. -/
def ApPc.toStore : ApPc → Nat
  | store => 1
  | halted => 2
  | iret => 3
  | eoi _ => 4
  | load => 5
  | sti => 6
  | x2apicOps => 7
  | _ => 8

section Progress

variable {cfg : Config} {s t : State} {a : Action} {x : Nat}

theorem Step.toStore_lt (hstep : Step cfg s a t) (ha : a.cpu = some (.ap x))
    (hup : 7 ≤ (s.ap x).rank) :
    t.ipiDone = true ∨ t.ipiDone = s.ipiDone ∧ (t.ap x).toStore < (s.ap x).toStore := by
  cases hstep with
  | stack h | printStarting h | printEnabling h | spurious h | setStarted h =>
    obtain rfl : _ = x := by simpa [Action.cpu] using ha
    rw [h] at hup
    exact absurd hup (by decide)
  | store h => exact Or.inl rfl
  | apOps h | sti h | deliver h | loadEoi h | eoi h | iret h =>
    obtain rfl : _ = x := by simpa [Action.cpu] using ha
    rw [h]
    exact Or.inr ⟨rfl, by simp [State.setAp, ApPc.toStore]⟩
  | apMode h =>
    obtain rfl : _ = x := by simpa [Action.cpu] using ha
    rw [h]
    refine Or.inr ⟨rfl, ?_⟩
    rcases afterMode_cases cfg ApPc.x2apicOps .sti with ⟨_, hpc, _⟩ | ⟨_, hpc, _⟩ <;>
      simp [State.setAp, hpc, ApPc.toStore]
  | _ => simp [Action.cpu] at ha

/-- `while(!ipi_done)` is not left before the flag is set. -/
theorem Step.done_stays (hstep : Step cfg s a t) (hboot : s.boot = .done x)
    (hdone : s.ipiDone = false) : t.boot = .done x := by
  cases ha : a.cpu with
  | none => exact absurd (hboot.symm.trans (hstep.ready_of_call ha)) (by simp)
  | some c =>
    cases c with
    | ap y => exact (hstep.boot_eq ha).trans hboot
    | boot =>
      cases hstep with
      | @readDone y h =>
        obtain rfl := BootPc.done.inj (h.symm.trans hboot)
        simp [hdone]
      | _ => simp_all [Action.cpu]

/-- The flag is only cleared by the next call. -/
theorem Step.ipiDone_mono (hstep : Step cfg s a t) (hboot : s.boot = .done x)
    (hdone : s.ipiDone = true) : t.ipiDone = true := by
  cases hstep with
  | clear h => exact absurd (hboot.symm.trans h) (by simp)
  | store => rfl
  | _ => exact hdone

theorem enabled_of_waiting (h : CallInv s) (hup : 7 ≤ (s.ap x).rank) (hboot : s.boot = .done x)
    (hdone : s.ipiDone = false) : Enabled (smp cfg) Action.cpu (.ap x) s := by
  by_cases hlt : (s.ap x).rank < 10
  · exact enabled_ap (ApPc.running_of_rank hup) hlt
  · cases hap : s.ap x with
    | halted =>
      have hpending := (h.waiting x hboot hdone).resolve_right (by simp [hap])
      exact ⟨_, _, rfl, .deliver hap hpending⟩
    | store => exact ⟨_, _, rfl, .store hap⟩
    | load => exact ⟨_, _, rfl, .loadEoi hap⟩
    | eoi ops => exact ⟨_, _, rfl, .eoi hap⟩
    | iret => exact ⟨_, _, rfl, .iret hap⟩
    | _ =>
      rw [hap] at hlt
      exact absurd (by decide) hlt

end Progress

/-! ## The calls -/

section Calls

variable {cfg : Config} {e : Execution (smp cfg)} {x : Nat}

/-- The handler of the target sets the flag. -/
theorem done_leadsTo_set (hfair : Fair Action.cpu e) (hbsp : cfg.bsp ∈ cfg.apicids)
    (hx : x ∈ cfg.others) :
    LeadsTo e (fun s => s.boot = .done x ∧ s.ipiDone = false) fun s =>
      s.boot = .done x ∧ s.ipiDone = true := by
  have hI : ∀ n, Known cfg (e.state n) ∧ CallInv (e.state n) :=
    fun n => ⟨known hbsp e n, callInv_run (e.run n)⟩
  have hup : ∀ s, Known cfg s → s.boot = .done x → 7 ≤ (s.ap x).rank := by
    intro s hs hb
    obtain ⟨as, hstart⟩ := hs.start
    exact hstart.rank_of_returned (by rw [hb]; trivial) hx
  have hflag : ∀ t : State, t.boot = .done x → (t.boot = .done x ∧ t.ipiDone = true) ∨
      (t.boot = .done x ∧ t.ipiDone = false) := by
    intro t ht
    cases h : t.ipiDone with
    | false => exact Or.inr ⟨ht, rfl⟩
    | true => exact Or.inl ⟨ht, rfl⟩
  refine hfair.descends (I := fun s => Known cfg s ∧ CallInv s) hI (.ap x)
    (fun s => (s.ap x).toStore) ?_ ?_ ?_
  · rintro s a t ⟨hs, _⟩ ⟨hb, hdone⟩ hstep
    have hstay := hstep.done_stays hb hdone
    by_cases ha : a.cpu = some (.ap x)
    · rcases hstep.toStore_lt ha (hup s hs hb) with hset | ⟨_, hlt⟩
      · exact Or.inl ⟨hstay, hset⟩
      · exact (hflag t hstay).imp_right fun ht => ⟨ht, Nat.le_of_lt hlt⟩
    · rw [hstep.ap_eq ha (by simp [hb])]
      exact (hflag t hstay).imp_right fun ht => ⟨ht, Nat.le_refl _⟩
  · rintro s a t ⟨hs, _⟩ ⟨hb, hdone⟩ ha hstep
    have hstay := hstep.done_stays hb hdone
    rcases hstep.toStore_lt ha (hup s hs hb) with hset | ⟨_, hlt⟩
    · exact Or.inl ⟨hstay, hset⟩
    · exact (hflag t hstay).imp_right fun ht => ⟨ht, hlt⟩
  · exact fun s hs hp => enabled_of_waiting hs.2 (hup s hs.1 hp.1) hp.1 hp.2

theorem set_leadsTo_ready (hfair : Fair Action.cpu e) (hbsp : cfg.bsp ∈ cfg.apicids) :
    LeadsTo e (fun s => s.boot = .done x ∧ s.ipiDone = true) fun s => s.boot = .ready := by
  have hread : ∀ s a t, s.boot = .done x ∧ s.ipiDone = true → Step cfg s a t →
      a.cpu = some .boot → t.boot = .ready := by
    rintro s a t ⟨hb, hdone⟩ hstep ha
    cases hstep with
    | readDone => simp [hdone]
    | _ => simp_all [Action.cpu]
  refine hfair.ensures (known hbsp e) .boot ?_ ?_ ?_
  · intro s a t _ hp hstep
    cases ha : a.cpu with
    | none => exact absurd (hp.1.symm.trans (hstep.ready_of_call ha)) (by simp)
    | some c =>
      cases c with
      | boot => exact Or.inr (hread s a t hp hstep ha)
      | ap y => exact Or.inl ⟨(hstep.boot_eq ha).trans hp.1, hstep.ipiDone_mono hp.1 hp.2⟩
  · exact fun s a t _ hp ha hstep => hread s a t hp hstep ha
  · exact fun s _ hp => ⟨_, _, rfl, .readDone hp.1⟩

theorem clear_leadsTo_ready (hfair : Fair Action.cpu e) (hbsp : cfg.bsp ∈ cfg.apicids)
    (hx : x ∈ cfg.others) :
    LeadsTo e (fun s => s.boot = .clear x) fun s => s.boot = .ready := by
  have hclear : LeadsTo e (fun s => s.boot = .clear x) fun s => s.boot = .load x :=
    boot_leadsTo (Q := (· = .load x)) hfair hbsp (by simp) (by simp) fun q hq => hq
  have hload : LeadsTo e (fun s => s.boot = .load x) fun s => ∃ ops, s.boot = .icr x ops :=
    boot_leadsTo (Q := fun q => ∃ ops, q = .icr x ops) hfair hbsp (by simp) (by simp)
      fun q hq => hq
  have hicr : LeadsTo e (fun s => ∃ ops, s.boot = .icr x ops) fun s => s.boot = .done x := by
    rintro n ⟨ops, hn⟩
    exact boot_leadsTo (p := .icr x ops) (Q := (· = .done x)) hfair hbsp (by simp) (by simp)
      (fun q hq => hq) n hn
  have hsplit : LeadsTo e (fun s => s.boot = .done x) fun s =>
      (s.boot = .done x ∧ s.ipiDone = false) ∨ (s.boot = .done x ∧ s.ipiDone = true) := by
    refine LeadsTo.of_imp fun n hn => ?_
    cases h : (e.state n).ipiDone with
    | false => exact Or.inl ⟨hn, rfl⟩
    | true => exact Or.inr ⟨hn, rfl⟩
  have hset := hsplit.trans
    (LeadsTo.or (done_leadsTo_set hfair hbsp hx) (LeadsTo.of_imp fun _ h => h))
  exact ((hclear.trans hload).trans hicr).trans (hset.trans (set_leadsTo_ready hfair hbsp))

/-- A call for a processor that was not started. -/
def Lost (x : Nat) (s : State) : Prop :=
  s.boot = .clear x ∨ s.boot = .load x ∨ (∃ ops, s.boot = .icr x ops) ∨
    s.boot = .done x ∧ s.ipiDone = false

theorem Lost.step {s t : State} {a : Action} (h : Lost x s) (hcall : CallInv s)
    (hoff : s.ap x = .off) (hstep : Step cfg s a t) : Lost x t := by
  have hnext : a.cpu = some .boot → s.boot.Next cfg t.boot := hstep.boot_next
  cases ha : a.cpu with
  | none =>
    have hready := hstep.ready_of_call ha
    rcases h with hb | hb | ⟨_, hb⟩ | ⟨hb, _⟩ <;> exact absurd (hb.symm.trans hready) (by simp)
  | some c =>
    cases c with
    | boot =>
      rcases h with hb | hb | ⟨ops, hb⟩ | ⟨hb, hdone⟩
      · have hq := hnext ha
        rw [hb] at hq
        exact Or.inr (Or.inl hq)
      · have hq := hnext ha
        rw [hb] at hq
        exact Or.inr (Or.inr (Or.inl hq))
      · have hdone := hcall.cleared x (Or.inr ⟨ops, hb⟩)
        cases hstep with
        | @sendIpi y ops' h =>
          obtain ⟨rfl, rfl⟩ := BootPc.icr.inj (h.symm.trans hb)
          exact Or.inr (Or.inr (Or.inr ⟨rfl, hdone⟩))
        | _ => simp_all [Action.cpu]
      · refine Or.inr (Or.inr (Or.inr ⟨hstep.done_stays hb hdone, ?_⟩))
        cases hstep with
        | readDone => exact hdone
        | _ => simp_all [Action.cpu]
    | ap y =>
      have hboot := hstep.boot_eq ha
      rcases h with hb | hb | ⟨ops, hb⟩ | ⟨hb, hdone⟩
      · exact Or.inl (hboot.trans hb)
      · exact Or.inr (Or.inl (hboot.trans hb))
      · exact Or.inr (Or.inr (Or.inl ⟨ops, hboot.trans hb⟩))
      · refine Or.inr (Or.inr (Or.inr ⟨hboot.trans hb, ?_⟩))
        cases hstep with
        | @store z hz =>
          -- the only handler that runs is the one of the target
          obtain rfl := BootPc.done.inj ((hcall.single z (Or.inr hz)).1.symm.trans hb)
          exact absurd (hoff.symm.trans hz) (by simp)
        | _ => first | exact hdone | simp [Action.cpu] at ha

/-- A call of `on_cpu` comes back in a fair execution exactly if its target is
one of the other processors that `startothers` has started. -/
theorem call_returns_iff (hbsp : cfg.bsp ∈ cfg.apicids) (hfair : Fair Action.cpu e) {n : Nat}
    (hcall : (e.state n).boot = .clear x) :
    (∃ m, n ≤ m ∧ (e.state m).boot = .ready) ↔ x ∈ cfg.others := by
  constructor
  · rintro ⟨m, hm, hready⟩
    by_contra hx
    have hoff : ∀ k, (e.state k).ap x = .off := by
      intro k
      by_contra hne
      obtain ⟨as, hstart⟩ := (known hbsp e k).start
      exact hx (hstart.listed x hne)
    have hlost : Lost x (e.state m) :=
      e.stable (fun k _ hstep h => Lost.step h (callInv_run (e.run k)) (hoff k) hstep)
        (Or.inl hcall) hm
    rcases hlost with hb | hb | ⟨_, hb⟩ | ⟨hb, _⟩ <;> exact absurd (hb.symm.trans hready) (by simp)
  · exact fun hx => clear_leadsTo_ready hfair hbsp hx n hcall

end Calls

/-- The boot processor of two calls the other one, which answers. -/
theorem call_returns_twoCpus : ∃ (e : Execution (smp twoCpus)) (n : Nat), Fair Action.cpu e ∧
    (e.state n).boot = .clear 1 ∧ ∃ m, n ≤ m ∧ (e.state m).boot = .ready := by
  obtain ⟨as, s, hrun, hboot, hhalted, hoff, hpending⟩ := twoCpus_ready []
  have hcall := (boots_run hrun).step (.onCpu 1 hboot)
  have h : Run ⟨(· = s.setBoot (.clear 1)), Step twoCpus⟩ [] _ := .init rfl
  have h := ((h.step (.clear rfl)).step (.loadIcr rfl)).step (.sendIpi rfl)
  have h := (h.step (.deliver (x := 1) hhalted rfl)).step (.store (x := 1) rfl)
  have h := (h.step (.loadEoi (x := 1) rfl)).step (.eoi (x := 1) rfl)
  have h := (h.step (.iret (x := 1) rfl)).step (.readDone (x := 1) rfl)
  obtain ⟨e, hclear, hrest⟩ := exists_resting hcall h
  have hfair : Fair Action.cpu e := by
    refine fair_of_rests (fun n hn => (hrest n hn).1) (not_enabled_of_ready rfl fun x => ?_)
    by_cases hx : x = 1
    · subst hx
      exact Or.inr ⟨rfl, rfl⟩
    · left
      simp [State.setAp, State.setBoot, update_of_ne hx, hoff x hx]
  have hclear := congrArg State.boot hclear
  exact ⟨e, _, hfair, hclear, (call_returns_iff (by decide) hfair hclear).2 (by decide)⟩

end HyperBench.Smp

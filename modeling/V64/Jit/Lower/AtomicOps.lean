import V64.Interp.AtomicOps
import V64.Jit.Lower.Atomic

/-!
# The atomics of both engines at the width of the access

`atomic::exec` and the read-modify-write that the translator emits, against the
operations of `rmwAt`.

* `rmw_width`: the stored value and Rt, for every operation, width and register.
* `not_signedOrder`: LDSMAXB does not compare bytes as signed ones.
-/

namespace V64.Jit

open V64.Cpu V64.Decoder V64.Interp V64.Platform

/-- **Each LSE atomic is the operation at the width of the access.** The stored value is
    the operation on the old memory value and the truncated Rs, and Rt receives the old
    value zero-extended, in the interpreter over any memory and in the emitted code, which
    can also bail; LDSMAX and LDSMIN compare as `lsMaxOrder`. -/
theorem rmw_width (vu : VecUnit) {size : ℕ} (hsize : size ≤ 3) (op : ℕ) (rs rn rt : Reg) :
    (∀ (M : Type) [GuestMem M] (g : Guest M) (pc : BitVec 64),
      execute vu g (.atomicRmw size op rs rn rt) pc =
        some (none, rmwAt lsMaxOrder g size op rs rn rt)) ∧
    ∀ (D : Type) [MmioDevice D] (L : Layout) (stale : Flags) (bus : Bus D) (cpu : CpuState)
      (l : ℕ → Wasm.Val) (site : Site) (base retired : BitVec 64), op ≤ 8 →
      Ready L bus.ram.size.toNat l → SiteOk site bus l base retired →
      BlockState (⟨cpu, bus⟩ : Guest (Bus D)) →
      ∃ code, lowerAtomic L (.atomicRmw size op rs rn rt) site = some code ∧
        EmitsOrBails L stale bus l code cpu site base retired
          (rmwAt lsMaxOrder ⟨cpu, bus⟩ size op rs rn rt) := by
  constructor
  · intro M _ g pc
    rw [← atomicRmw_eq hsize]
    rfl
  · intro D _ L stale bus cpu l site base retired hop hready hsite hg
    rw [← atomicRmw_eq hsize]
    exact atomicRmw_ends hready hsite hg.runState hsize hop rs rn rt

/-- `ldsmaxb w1, w3, [x2]` over the byte `0x80`, with 1 in W1. -/
def ldsmaxbGuest : Guest (Bus Empty) where
  cpu := (CpuState.new.writeGpr 2 false 0x40000000).writeGpr 1 false 1
  mem := {
    ram := { base := 0x40000000, size := 0x1000, bytes := fun a => if a = 0 then 0x80 else 0 }
    devices := [] }

theorem rmw_width_ldsmaxb :
    execute (fun _ _ => none) ldsmaxbGuest (.atomicRmw 0 4 1 2 3) 0 =
      some (none, rmwAt lsMaxOrder ldsmaxbGuest 0 4 1 2 3) ∧
    ∃ code, lowerAtomic pageLayout (.atomicRmw 3 0 2 1 3) pageSite = some code ∧
      EmitsOrBails pageLayout Flags.default aliasState.guest.mem pageLocals code
        aliasState.guest.cpu pageSite 0x4000 0 (rmwAt lsMaxOrder aliasState.guest 3 0 2 1 3) :=
  ⟨(rmw_width (fun _ _ => none) (by decide) 4 1 2 3).1 _ ldsmaxbGuest 0,
    (rmw_width (fun _ _ => none) (by decide) 0 2 1 3).2 _ _ _ _ _ _ _ _ _ (by decide)
      ready_pageLocals siteOk_page blockState_alias⟩

/-- The signed maximum of the bytes `0x80` and 1 is 1, and `0x80` stays in memory. -/
theorem not_signedOrder :
    ¬ ∀ (g : Guest (Bus Empty)) (size op : ℕ) (rs rn rt : Reg), size ≤ 3 →
      execute (fun _ _ => none) g (.atomicRmw size op rs rn rt) 0 =
        some (none, rmwAt BitVec.sle g size op rs rn rt) := by
  intro h
  have heq := congrArg (Option.map fun r => r.2.mem.ram.bytes 0)
    (h ldsmaxbGuest 0 4 1 2 3 (by decide))
  revert heq
  decide +kernel

end V64.Jit

import V64.Interp.Exception

/-!
# System registers, the generic timer and PSCI

Models of `crates/interp/src/system.rs`, `crates/interp/src/timer.rs` and
`crates/interp/src/psci.rs`. Of the timer, only the MRS/MSR side and the clock's
`set_count` are here: `next_deadline` and the output lines do not touch the CPU.
-/

namespace V64.Interp

open V64.Cpu V64.Decoder

/-! ## Generic timer (`timer.rs`) -/

/-- `key_cntpct` (lines 24–26). -/
def keyCntpct : BitVec 32 := sysregKey 3 3 14 0 1

/-- `key_cntvct` (lines 27–29). -/
def keyCntvct : BitVec 32 := sysregKey 3 3 14 0 2

/-- `key_cntp_tval` (lines 31–33). -/
def keyCntpTval : BitVec 32 := sysregKey 3 3 14 2 0

/-- `key_cntp_ctl` (lines 34–36). -/
def keyCntpCtl : BitVec 32 := sysregKey 3 3 14 2 1

/-- `key_cntp_cval` (lines 37–39). -/
def keyCntpCval : BitVec 32 := sysregKey 3 3 14 2 2

/-- `key_cntv_tval` (lines 41–43). -/
def keyCntvTval : BitVec 32 := sysregKey 3 3 14 3 0

/-- `key_cntv_ctl` (lines 44–46). -/
def keyCntvCtl : BitVec 32 := sysregKey 3 3 14 3 1

/-- `key_cntv_cval` (lines 47–49). -/
def keyCntvCval : BitVec 32 := sysregKey 3 3 14 3 2

/-- `ctl_read` (lines 57–62). -/
def ctlRead (cpu : CpuState) (ctlKey cvalKey cntKey : BitVec 32) : BitVec 64 :=
  let ctl := getSysreg cpu ctlKey &&& 0b11
  let enabled := ctl &&& 1 != 0
  let istatus := enabled && getSysreg cpu cntKey ≥ getSysreg cpu cvalKey
  ctl ||| (bit64 istatus <<< 2)

/-- `tval_read` (lines 65–68). -/
def tvalRead (cpu : CpuState) (cvalKey cntKey : BitVec 32) : BitVec 64 :=
  let remaining := getSysreg cpu cvalKey - getSysreg cpu cntKey
  (remaining.setWidth 32).setWidth 64

/-- `tval_write` (lines 71–75). -/
def tvalWrite (cpu : CpuState) (cvalKey cntKey : BitVec 32) (val : BitVec 64) : CpuState :=
  let delta := (val.setWidth 32).signExtend 64
  insertSysreg cpu cvalKey (getSysreg cpu cntKey + delta)

/-- `timer::read` (lines 80–92). -/
def timerRead (cpu : CpuState) (key : BitVec 32) : Option (BitVec 64) :=
  if key = keyCntvCtl then some (ctlRead cpu keyCntvCtl keyCntvCval keyCntvct)
  else if key = keyCntpCtl then some (ctlRead cpu keyCntpCtl keyCntpCval keyCntpct)
  else if key = keyCntvTval then some (tvalRead cpu keyCntvCval keyCntvct)
  else if key = keyCntpTval then some (tvalRead cpu keyCntpCval keyCntpct)
  else none

/-- `timer::write` (lines 97–107): `none` is `false`. -/
def timerWrite (cpu : CpuState) (key : BitVec 32) (val : BitVec 64) : Option CpuState :=
  if key = keyCntvTval then some (tvalWrite cpu keyCntvCval keyCntvct val)
  else if key = keyCntpTval then some (tvalWrite cpu keyCntpCval keyCntpct val)
  else none

/-- `set_count` (lines 137–140). -/
def setCount (cpu : CpuState) (ticks : BitVec 64) : CpuState :=
  insertSysreg (insertSysreg cpu keyCntvct ticks) keyCntpct ticks

/-! ## MRS and MSR (`system.rs`) -/

/-- `key_daif` (lines 20–22). -/
def keyDaif : BitVec 32 := sysregKey 3 3 4 2 1

/-- `key_nzcv` (lines 23–25). -/
def keyNzcv : BitVec 32 := sysregKey 3 3 4 2 0

/-- `key_fpcr` (lines 29–31). -/
def keyFpcr : BitVec 32 := sysregKey 3 3 4 4 0

/-- `key_fpsr` (lines 32–34). -/
def keyFpsr : BitVec 32 := sysregKey 3 3 4 4 1

/-- `key_sctlr_el1` (lines 38–40). -/
def keySctlrEl1 : BitVec 32 := sysregKey 3 0 1 0 0

/-- `key_tcr_el1` (lines 41–43). -/
def keyTcrEl1 : BitVec 32 := sysregKey 3 0 2 0 2

/-- `key_ttbr0_el1` (lines 44–46). -/
def keyTtbr0El1 : BitVec 32 := sysregKey 3 0 2 0 0

/-- `key_ttbr1_el1` (lines 47–49). -/
def keyTtbr1El1 : BitVec 32 := sysregKey 3 0 2 0 1

/-- `read_xlate_reg` (lines 53–65). -/
def readXlateReg (cpu : CpuState) (key : BitVec 32) : Option (BitVec 64) :=
  if key = keySctlrEl1 then some cpu.sctlrEl1
  else if key = keyTcrEl1 then some cpu.tcrEl1
  else if key = keyTtbr0El1 then some cpu.ttbr0El1
  else if key = keyTtbr1El1 then some cpu.ttbr1El1
  else none

/-- `write_xlate_reg` (lines 68–84): `none` is `false`. -/
def writeXlateReg (cpu : CpuState) (key : BitVec 32) (val : BitVec 64) : Option CpuState :=
  if key = keySctlrEl1 then some { cpu with sctlrEl1 := val }.flushTlb
  else if key = keyTcrEl1 then some { cpu with tcrEl1 := val }.flushTlb
  else if key = keyTtbr0El1 then some { cpu with ttbr0El1 := val }.flushTlb
  else if key = keyTtbr1El1 then some { cpu with ttbr1El1 := val }.flushTlb
  else none

/-- `sp_bank` (lines 88–94). -/
def spBank (key : BitVec 32) : Option (Fin 4) :=
  if key = keySpEl0 then some 0 else if key = keySpEl1 then some 1 else none

/-- The value an MRS of `key` reads (lines 98–117). -/
def readSysreg (cpu : CpuState) (key : BitVec 32) : BitVec 64 :=
  if key = keyFpcr then cpu.fpcr
  else if key = keyFpsr then cpu.fpsr
  else if key = keyDaif then cpu.daif.setWidth 64 <<< 6
  else if key = keyNzcv then cpu.flags.toNzcv
  else
    match readXlateReg cpu key with
    | some v => v
    | none =>
      match spBank key with
      | some idx => cpu.readSpEl idx
      | none => (timerRead cpu key).getD (getSysreg cpu key)

/-- The effect of an MSR of `val` to `key` (lines 122–140). -/
def writeSysreg (cpu : CpuState) (key : BitVec 32) (val : BitVec 64) : CpuState :=
  if key = keyFpcr then { cpu with fpcr := val }
  else if key = keyFpsr then { cpu with fpsr := val }
  else if key = keyDaif then { cpu with daif := (val >>> 6).setWidth 4 }
  else if key = keyNzcv then { cpu with flags := Flags.fromNzcv val }
  else
    match writeXlateReg cpu key val with
    | some cpu => cpu
    | none =>
      match spBank key with
      | some idx => cpu.writeSpEl idx val
      | none => (timerWrite cpu key val).getD (insertSysreg cpu key val)

/-- Everything that an MSR can do, with the key that it takes. -/
inductive MsrEffect (cpu : CpuState) (key : BitVec 32) (val : BitVec 64) : CpuState → Prop where
  | fpcr (h : key = keyFpcr) : MsrEffect cpu key val { cpu with fpcr := val }
  | fpsr (h : key = keyFpsr) : MsrEffect cpu key val { cpu with fpsr := val }
  | daif (h : key = keyDaif) : MsrEffect cpu key val { cpu with daif := (val >>> 6).setWidth 4 }
  | nzcv (h : key = keyNzcv) : MsrEffect cpu key val { cpu with flags := Flags.fromNzcv val }
  | sctlr (h : key = keySctlrEl1) : MsrEffect cpu key val { cpu with sctlrEl1 := val }.flushTlb
  | tcr (h : key = keyTcrEl1) : MsrEffect cpu key val { cpu with tcrEl1 := val }.flushTlb
  | ttbr0 (h : key = keyTtbr0El1) : MsrEffect cpu key val { cpu with ttbr0El1 := val }.flushTlb
  | ttbr1 (h : key = keyTtbr1El1) : MsrEffect cpu key val { cpu with ttbr1El1 := val }.flushTlb
  | bank {i : Fin 4} (h : spBank key = some i) : MsrEffect cpu key val (cpu.writeSpEl i val)
  | map {k : BitVec 32} {v : BitVec 64} (h : k = key ∨ k = keyCntvCval ∨ k = keyCntpCval) :
      MsrEffect cpu key val (insertSysreg cpu k v)

theorem msrEffect_writeXlateReg {cpu cpu' : CpuState} {key : BitVec 32} {val : BitVec 64}
    (h : writeXlateReg cpu key val = some cpu') : MsrEffect cpu key val cpu' := by
  unfold writeXlateReg at h
  split_ifs at h with hsctlr htcr httbr0 httbr1
  · exact Option.some.inj h ▸ .sctlr hsctlr
  · exact Option.some.inj h ▸ .tcr htcr
  · exact Option.some.inj h ▸ .ttbr0 httbr0
  · exact Option.some.inj h ▸ .ttbr1 httbr1

theorem msrEffect_timer (cpu : CpuState) (key : BitVec 32) (val : BitVec 64) :
    MsrEffect cpu key val ((timerWrite cpu key val).getD (insertSysreg cpu key val)) := by
  unfold timerWrite
  split_ifs
  · exact .map (.inr (.inl rfl))
  · exact .map (.inr (.inr rfl))
  · exact .map (.inl rfl)

theorem msrEffect_writeSysreg (cpu : CpuState) (key : BitVec 32) (val : BitVec 64) :
    MsrEffect cpu key val (writeSysreg cpu key val) := by
  unfold writeSysreg
  split_ifs with hfpcr hfpsr hdaif hnzcv
  · exact .fpcr hfpcr
  · exact .fpsr hfpsr
  · exact .daif hdaif
  · exact .nzcv hnzcv
  · cases hxlate : writeXlateReg cpu key val with
    | some cpu' => exact msrEffect_writeXlateReg hxlate
    | none =>
      cases hbank : spBank key with
      | some i => exact .bank hbank
      | none => exact msrEffect_timer cpu key val

/-- `system::exec` (lines 86–143). -/
def sysRegMove (cpu : CpuState) (read : Bool) (key : BitVec 32) (rt : Reg) : CpuState :=
  if read then cpu.writeGpr rt false (readSysreg cpu key)
  else writeSysreg cpu key (cpu.readGpr rt false)

/-! ## PSCI (`psci.rs`) -/

/-- `psci::call` (lines 38–53). The constants are those of lines 21–34. -/
def psciCall (cpu : CpuState) : CpuState :=
  let fid := (cpu.x 0).setWidth 32 &&& ~~~(1#32 <<< 30)
  let off := fid == 0x84000008#32 || fid == 0x84000009#32
  let ret : BitVec 64 :=
    if fid == 0x84000000#32 then 1 <<< 16
    else if off then 0
    else if fid == 0x84000004#32 then 0
    else if fid == 0x84000006#32 then 2
    else -1
  let cpu := if off then { cpu with poweredOff := true } else cpu
  { cpu with x := Function.update cpu.x 0 ret }

end V64.Interp

import V64.Platform.Fdt.Builder

/-!
# The device tree of the board

Model of `virt_dtb` in `crates/platform/src/fdt.rs`, in a build without overflow checks.
-/

namespace V64.Platform

/-- `GIC_SPI` (line 163). -/
def gicSpi : BitVec 32 := 0

/-- `GIC_PPI` (line 164). -/
def gicPpi : BitVec 32 := 1

/-- `IRQ_LEVEL_HIGH` (line 165). -/
def irqLevelHigh : BitVec 32 := 4

/-- `IRQ_LEVEL_LOW` (line 166). -/
def irqLevelLow : BitVec 32 := 8

/-- `PHANDLE_GIC` (line 169). -/
def phandleGic : BitVec 32 := 1

/-- `PHANDLE_CLK` (line 170). -/
def phandleClk : BitVec 32 := 2

/-- `DtbConfig` (lines 173–186). -/
structure DtbConfig where
  memBase : BitVec 64
  memSize : BitVec 64
  gicdBase : BitVec 64
  giccBase : BitVec 64
  uartBase : BitVec 64
  uartIrq : BitVec 32
  bootargs : Str
  initrd : Option (BitVec 64 × BitVec 64)
  virtio : List (BitVec 64 × BitVec 32)

/-- `reg_2_2` (lines 292–297). -/
def reg22 (base size : BitVec 64) : List (BitVec 8) := Bytes.toBe 8 base ++ Bytes.toBe 8 size

/-- `{v:x}` of a format string. -/
def lowerHex (v : BitVec 64) : String := String.ofList (Nat.toDigits 16 v.toNat)

/-- The node of a virtio transport (lines 279–285). -/
def virtioNode (fdt : FdtBuilder) (slot : BitVec 64 × BitVec 32) : FdtBuilder :=
  let fdt := fdt.beginNode (utf8 ("virtio_mmio@" ++ lowerHex slot.1))
  let fdt := fdt.propStrlist (utf8 "compatible") [utf8 "virtio,mmio"]
  let fdt := fdt.prop (utf8 "reg") (reg22 slot.1 0x200)
  let fdt := fdt.propCells (utf8 "interrupts") [gicSpi, slot.2 - 32, irqLevelHigh]
  fdt.endNode

/-- `virt_dtb` (lines 190–289). -/
def virtDtb (cfg : DtbConfig) : List (BitVec 8) :=
  let fdt := FdtBuilder.new.beginNode (utf8 "")
  let fdt := fdt.propU32 (utf8 "#address-cells") 2
  let fdt := fdt.propU32 (utf8 "#size-cells") 2
  let fdt := fdt.propStrlist (utf8 "compatible") [utf8 "linux,dummy-virt"]
  let fdt := fdt.propStr (utf8 "model") (utf8 "v64-virt")
  let fdt := fdt.propU32 (utf8 "interrupt-parent") phandleGic
  -- /chosen
  let fdt := fdt.beginNode (utf8 "chosen")
  let fdt := fdt.propStr (utf8 "bootargs") cfg.bootargs
  let fdt := fdt.propStr (utf8 "stdout-path") (utf8 "/pl011@9000000")
  let fdt :=
    match cfg.initrd with
    | some (start, stop) =>
      (fdt.propU64 (utf8 "linux,initrd-start") start).propU64 (utf8 "linux,initrd-end") stop
    | none => fdt
  let fdt := fdt.endNode
  -- /memory
  let fdt := fdt.beginNode (utf8 "memory@40000000")
  let fdt := fdt.propStr (utf8 "device_type") (utf8 "memory")
  let fdt := fdt.prop (utf8 "reg") (reg22 cfg.memBase cfg.memSize)
  let fdt := fdt.endNode
  -- /cpus
  let fdt := fdt.beginNode (utf8 "cpus")
  let fdt := fdt.propU32 (utf8 "#address-cells") 1
  let fdt := fdt.propU32 (utf8 "#size-cells") 0
  let fdt := fdt.beginNode (utf8 "cpu@0")
  let fdt := fdt.propStr (utf8 "device_type") (utf8 "cpu")
  let fdt := fdt.propStrlist (utf8 "compatible") [utf8 "arm,cortex-a72"]
  let fdt := fdt.propU32 (utf8 "reg") 0
  let fdt := fdt.propStr (utf8 "enable-method") (utf8 "psci")
  let fdt := fdt.endNode.endNode
  -- /psci
  let fdt := fdt.beginNode (utf8 "psci")
  let fdt := fdt.propStrlist (utf8 "compatible") [utf8 "arm,psci-1.0", utf8 "arm,psci-0.2"]
  let fdt := fdt.propStr (utf8 "method") (utf8 "hvc")
  let fdt := fdt.endNode
  -- /timer
  let fdt := fdt.beginNode (utf8 "timer")
  let fdt := fdt.propStrlist (utf8 "compatible") [utf8 "arm,armv8-timer"]
  let fdt := fdt.propCells (utf8 "interrupts")
    [gicPpi, 13, irqLevelLow, gicPpi, 14, irqLevelLow, gicPpi, 11, irqLevelLow,
      gicPpi, 10, irqLevelLow]
  let fdt := fdt.endNode
  -- /intc
  let fdt := fdt.beginNode (utf8 "intc@8000000")
  let fdt := fdt.propStrlist (utf8 "compatible") [utf8 "arm,cortex-a15-gic", utf8 "arm,gic-400"]
  let fdt := fdt.propEmpty (utf8 "interrupt-controller")
  let fdt := fdt.propU32 (utf8 "#interrupt-cells") 3
  let fdt := fdt.propU32 (utf8 "#address-cells") 0
  let fdt := fdt.prop (utf8 "reg") (reg22 cfg.gicdBase 0x1000 ++ reg22 cfg.giccBase 0x1000)
  let fdt := fdt.propU32 (utf8 "phandle") phandleGic
  let fdt := fdt.endNode
  -- /apb-pclk
  let fdt := fdt.beginNode (utf8 "apb-pclk")
  let fdt := fdt.propStrlist (utf8 "compatible") [utf8 "fixed-clock"]
  let fdt := fdt.propU32 (utf8 "#clock-cells") 0
  let fdt := fdt.propU32 (utf8 "clock-frequency") 24000000
  let fdt := fdt.propStr (utf8 "clock-output-names") (utf8 "clk24mhz")
  let fdt := fdt.propU32 (utf8 "phandle") phandleClk
  let fdt := fdt.endNode
  -- /pl011
  let fdt := fdt.beginNode (utf8 "pl011@9000000")
  let fdt := fdt.propStrlist (utf8 "compatible") [utf8 "arm,pl011", utf8 "arm,primecell"]
  let fdt := fdt.prop (utf8 "reg") (reg22 cfg.uartBase 0x1000)
  let fdt := fdt.propCells (utf8 "interrupts") [gicSpi, cfg.uartIrq - 32, irqLevelHigh]
  let fdt := fdt.propCells (utf8 "clocks") [phandleClk, phandleClk]
  let fdt := fdt.propStrlist (utf8 "clock-names") [utf8 "uartclk", utf8 "apb_pclk"]
  let fdt := fdt.endNode
  let fdt := cfg.virtio.foldl virtioNode fdt
  fdt.endNode.finish

end V64.Platform

import V64.Decoder.Excl
import V64.Interp.Alias
import V64.Interp.Simd.AesInverse
import V64.Interp.Simd.ByElement
import V64.Interp.Simd.ImmShift
import V64.Interp.Simd.ShaRounds
import V64.Interp.Bitfield
import V64.Interp.ExclAbort
import V64.Interp.Isolation
import V64.Interp.LdstMulti
import V64.Interp.Monitor
import V64.Interp.PairFaults
import V64.Interp.Perms
import V64.Interp.Pstate
import V64.Interp.Reservation
import V64.Interp.SpBanking
import V64.Interp.TlbTransparency
import V64.Interp.WalkBounds
import V64.Jit.Position
import V64.Jit.RegionInt
import V64.Platform.JitStop
import V64.Jit.Lower.AtomicOps
import V64.Jit.Lower.RamBound
import V64.Jit.Lower.SimdAgree
import V64.Platform.GicIar
import V64.Platform.GicProtocol
import V64.Platform.Routing
import V64.Platform.Uart
import V64.Platform.Virtio.BlkRing
import V64.Platform.Virtio.GpuRuns
import V64.Platform.Virtio.InputRuns
import V64.Platform.Virtio.Returns
import V64.Platform.Virtio.Pop
import V64.Platform.Fdt.RoundTrip
import V64.Platform.Loader
import V64.Platform.Wakeup
import V64.Interp.Steady
import V64.Interp.AnyBuild
import V64.Platform.MachineRun

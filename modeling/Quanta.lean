import Quanta.Isa.Decode
import Quanta.Isa.Alu
import Quanta.Lib.Bits
import Quanta.Lib.Bytes
import Quanta.Device.Platform
import Quanta.Device.Virtio
import Quanta.Float.Softfloat
import Quanta.Machine.Memory
import Quanta.Machine.Cache
import Quanta.Machine.State
import Quanta.Machine.Mmu
import Quanta.Hart.Trap
import Quanta.Hart.Status
import Quanta.Hart.See
import Quanta.Hart.Exec
import Quanta.Hart.Fp
import Quanta.Hart.Step
import Quanta.Lib.Run
import Quanta.Effects.Acts
import Quanta.Effects.Step
import Quanta.Effects.System
import Quanta.Privilege.Levels
import Quanta.Privilege.Bypass
import Quanta.Privilege.Confinement
import Quanta.Device.Frame
import Quanta.Jit.Emit
import Quanta.Paging.Tables
import Quanta.Paging.Tlb
import Quanta.Hsm.Calls
import Quanta.Engine.Handle
import Quanta.Engine.Runs
import Quanta.Engine.Reset
import Quanta.Hsm.Entry
import Quanta.Device.Fifo
import Quanta.Net.Acts
import Quanta.Net.Download
import Quanta.Net.Flows
import Quanta.Net.Link
import Quanta.Engine.SnapFile
import Quanta.Interrupts.Plic
import Quanta.Interrupts.Selection
import Quanta.Interrupts.SbiTimer
import Quanta.Lib.Fallible
import Quanta.Lib.Fdt
import Quanta.Loader.Blob
import Quanta.Loader.Bounds
import Quanta.Engine.SnapRoundtrip
import Quanta.Float.Arith
import Quanta.Float.Contract
import Quanta.Loader.Firmware
import Quanta.Loader.Layout
import Quanta.Device.Registers
import Quanta.Effects.Faults
import Quanta.Effects.Reserved
import Quanta.Float.Compare
import Quanta.Float.Tracking
import Quanta.Interrupts.Horizon
import Quanta.Lib.Gf2
import Quanta.Lib.OnesComplement
import Quanta.Net.Emit
import Quanta.Net.Relay
import Quanta.Paging.Architecture
import Quanta.Rv64.Bitmanip
import Quanta.Rv64.MulDiv
import Quanta.Effects.Reservation
import Quanta.Cache.Lru
import Quanta.Float.Calls
import Quanta.Gdb.Progress
import Quanta.Gdb.Registers
import Quanta.Jit.Arena

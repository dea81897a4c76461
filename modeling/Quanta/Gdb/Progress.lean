/-
Progress of the debugged hart. The stub advances the machine by one scheduler slot at a time, while
the pc it compares with the breakpoints is hart 0's. A packet that resumes the machine when the next
slot is hart 0's has hart 0 execute the instruction at its pc before anything is answered; when the
slot is another hart's, hart 0 retires nothing and the same breakpoint is reported again at once.
-/
import Mathlib.Tactic
import Quanta.Engine.Runs
import Quanta.Gdb.Stub

namespace Quanta.Gdb

open GdbStub Run

/-! ## What hart 0 executes -/

/-- The stub with the packet's address in the pc, if it brings one. -/
def addressed (s : GdbStub) (args : List Byte) : GdbStub := if args ≠ [] then s.setResume args else s

end Quanta.Gdb

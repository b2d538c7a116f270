import R3000.Cpu.Basic
import R3000.Text.Numeral

/-!
# Register dump

The registers as lines of text: the program counter and the control registers first, then the general
registers by name, four to a line.
-/

namespace R3000.Cpu

/-- The names of the general registers, each four columns wide. -/
def registerNames : Vector String 32 :=
  #v["zero", "  at", "  v0", "  v1", "  a0", "  a1", "  a2", "  a3", "  t0", "  t1", "  t2", "  t3",
    "  t4", "  t5", "  t6", "  t7", "  s0", "  s1", "  s2", "  s3", "  s4", "  s5", "  s6", "  s7",
    "  t8", "  t9", "  k0", "  k1", "  gp", "  sp", "  fp", "  ra"]

/-- A general register with its name. -/
def dumpRegister (c : Cpu) (r : Reg) : String :=
  registerNames.get r ++ "=" ++ Text.padded (c.gpr.get r) ++ " "

/-- The line of the control registers. -/
def dumpControl (c : Cpu) : String :=
  " ".intercalate
    [ "pc=" ++ Text.padded c.pc, "hi=" ++ Text.padded c.hi, "lo=" ++ Text.padded c.lo,
      "sr=" ++ Text.padded (c.cop0.get status), "cause=" ++ Text.padded (c.cop0.get cause),
      "epc=" ++ Text.padded (c.cop0.get exceptionPc) ]

/-- The registers as text, each line ended. -/
def dump (c : Cpu) : String :=
  let rows := (List.range 8).map fun row =>
    String.join ((List.range 4).map fun col => c.dumpRegister (Fin.ofNat 32 (4 * row + col)))
  String.join ((c.dumpControl :: rows).map (· ++ "\n"))

end R3000.Cpu

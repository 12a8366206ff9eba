/-!
# The help text
-/

namespace Chip8.CommandLine

/-- The lines of the help text. -/
def helpLines : List String := [
  "usage: chip8emu [-h] [--scale SCALE] [--cpu-hz CPU_HZ] [--timer-hz TIMER_HZ]",
  "                [--verbose]",
  "                rom",
  "",
  "CHIP-8 Emulator",
  "",
  "positional arguments:",
  "  rom                  Path to a raw CHIP-8 ROM file",
  "",
  "options:",
  "  -h, --help           show this help message and exit",
  "  --scale SCALE        Window pixels per CHIP-8 pixel. Default: 10",
  "  --cpu-hz CPU_HZ      Instructions per second. Default: 60",
  "  --timer-hz TIMER_HZ  Delay timer rate. Default: 60",
  "  --verbose, -v        Log every executed instruction (toggle with F1)"]

/-- The help text, for a terminal of eighty columns. -/
def helpText : String :=
  String.join (helpLines.map (· ++ "\n"))

end Chip8.CommandLine

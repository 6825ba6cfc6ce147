import Governance.Conflict.Basic
import Governance.Json.Shape

/-!
# Configuration

Settings of the program: how looser conflicts are weighed and how results are printed. The weight
can also be set by the environment, which takes precedence.
-/

set_option autoImplicit false

namespace Governance.CommandLine

structure OutputConfig where
  pretty : Bool := true
  deriving DecidableEq, Repr

structure Config where
  conflicts : ConflictPolicy := {}
  output : OutputConfig := {}
  deriving DecidableEq, Repr

def looserSeverityVariable : String := "VERA_LOOSER_SEVERITY"

def OutputConfig.toJson (config : OutputConfig) : Json := .obj [("pretty", .bool config.pretty)]

def OutputConfig.ofJson : Json → Wire.Decoded OutputConfig :=
  Wire.record "struct OutputConfig" 1 fun given =>
    OutputConfig.mk <$> given.fieldOr (some true) 0 "pretty" Wire.flag

namespace Config

def toJson (config : Config) : Json :=
  .obj [("conflicts", config.conflicts.toJson), ("output", config.output.toJson)]

def ofJson : Json → Wire.Decoded Config :=
  Wire.record "struct Config" 2 fun given =>
    Config.mk <$> given.fieldOr (some {}) 0 "conflicts" ConflictPolicy.ofJson
      <*> given.fieldOr (some {}) 1 "output" OutputConfig.ofJson

def shape : Json.Shape :=
  .record [("conflicts", .record [("looser_severity", .text)]),
    ("output", .record [("pretty", .any)])]

/-- The settings with the weight of looser conflicts from the environment, if it is set there. A
setting that is refused is given back. -/
def withLooserSeverity (config : Config) : Option String → Except String Config
  | none => .ok config
  | some setting =>
    (LooserSeverity.ofText setting).map fun severity => { config with conflicts := ⟨severity⟩ }

end Config

end Governance.CommandLine

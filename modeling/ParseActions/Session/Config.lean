import ParseActions.Eval.Machine
import ParseActions.Json.Decode
import ParseActions.Session.Scheduler

/-!
# Configurations

What may be set for a session. A configuration is read from an object with any part of its fields,
and takes the standard values for the others.

## Main definitions

* `Config`, `Config.standard`
* `Config.toJson`, `Config.ofJson?`
-/

namespace ParseActions

/-- The settings of a session. Delays are in milliseconds. -/
structure Config where
  /-- Whether steps that failed are shown. -/
  showFailures : Bool
  /-- The gas that each run of a body may use. -/
  gasLimit : Nat
  /-- Labels with more characters are shortened when they contain a space. -/
  labelLength : Nat
  saveDelay : Nat
  selectDelay : Nat
  zoomDelay : Nat
  exitZoomDelay : Nat
  deriving DecidableEq

namespace Config

/-- The settings that are used unless it is said otherwise. -/
def standard : Config where
  showFailures := false
  gasLimit := Machine.defaultLimit
  labelLength := 20
  saveDelay := 250
  selectDelay := 250
  zoomDelay := 0
  exitZoomDelay := 100

instance : Inhabited Config := ⟨standard⟩

/-- A configuration as an object. -/
def toJson (c : Config) : Json :=
  .object [("show_failures", .bool c.showFailures), ("gas_limit", .nat c.gasLimit),
    ("label_max_len", .nat c.labelLength), ("save_delay_ms", .nat c.saveDelay),
    ("select_delay_ms", .nat c.selectDelay), ("zoom_delay_ms", .nat c.zoomDelay),
    ("exit_zoom_delay_ms", .nat c.exitZoomDelay)]

/-- Reads a configuration. -/
def ofJson? (json : Json) : Option Config := do
  let [showFailures, gasLimit, labelLength, saveDelay, selectDelay, zoomDelay, exitZoomDelay] ←
    Json.members? ["show_failures", "gas_limit", "label_max_len", "save_delay_ms",
      "select_delay_ms", "zoom_delay_ms", "exit_zoom_delay_ms"] json | none
  return {
    showFailures := ← showFailures.orElse Json.bool? standard.showFailures
    gasLimit := ← gasLimit.orElse Json.nat? standard.gasLimit
    labelLength := ← labelLength.orElse Json.nat? standard.labelLength
    saveDelay := ← saveDelay.orElse Json.nat? standard.saveDelay
    selectDelay := ← selectDelay.orElse Json.nat? standard.selectDelay
    zoomDelay := ← zoomDelay.orElse Json.nat? standard.zoomDelay
    exitZoomDelay := ← exitZoomDelay.orElse Json.nat? standard.exitZoomDelay }

end Config

end ParseActions

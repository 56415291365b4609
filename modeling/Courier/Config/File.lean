import Courier.Config.Basic
import Courier.Text.Utf8
import Courier.Toml.Document
import Courier.Toml.Quoted

/-!
# Configuration files

A configuration file is a TOML document with a section for each part of a node. The section `node`
must be there, even if it is empty; every other section and every setting has a default. What the
file holds beyond that is ignored. A section may also be written as an array of its settings in
their order.

`Config.load` reads a file, `Config.render?` writes one.
-/

namespace Courier

/-- Why a configuration cannot be read. -/
inductive ConfigError where
  /-- The file is not UTF-8. -/
  | notText
  /-- The text is not TOML, or a section or a setting has the wrong type. -/
  | malformed
  deriving DecidableEq, Repr

namespace Config

open Toml

/-- The settings of the section `node`. -/
def nodeSettings : List String := ["local_identity", "database"]

/-- The settings of the section `devices`. -/
def deviceSettings : List String := ["refresh_interval_secs"]

/-- The settings of the section `handshake`. -/
def handshakeSettings : List String := ["expiry_secs"]

/-- The settings of the section `polling`. -/
def pollingSettings : List String :=
  ["min_interval_secs", "max_interval_secs", "idle_limit_secs"]

/-- The settings of the section `unlink`. -/
def unlinkSettings : List String := ["max_view_age_secs"]

/-- The settings that a value holds, if it can stand for a section. A date is taken for a section
without any known setting. -/
def section? (settings : List String) : Value → Option Table
  | .table _ entries => some entries
  | .array items => some (settings.zip items)
  | .tables elements => some (settings.zip (elements.map (.table .header)))
  | .dateTime _ => some []
  | _ => none

/-- A section that may be missing. -/
def optionalSection? (root : Table) (name : String) (settings : List String) : Option Table :=
  match root.get? name with
  | none => some []
  | some v => section? settings v

/-- A text among the settings of a section. -/
def textAt? (entries : Table) (name default : String) : Option String :=
  match entries.get? name with
  | none => some default
  | some (.text s) => some s
  | some _ => none

/-- A span of whole seconds among the settings of a section. -/
def secondsAt? (entries : Table) (name : String) (default : UInt64) : Option UInt64 :=
  match entries.get? name with
  | none => some default
  | some (.integer n) => if 0 ≤ n then some (UInt64.ofNat n.toNat) else none
  | some _ => none

/-- The configuration that a document holds. -/
def ofTable? (root : Table) : Option Config := do
  let node ← section? nodeSettings (← root.get? "node")
  let devices ← optionalSection? root "devices" deviceSettings
  let handshake ← optionalSection? root "handshake" handshakeSettings
  let polling ← optionalSection? root "polling" pollingSettings
  let unlink ← optionalSection? root "unlink" unlinkSettings
  return {
    localIdentity := ← textAt? node "local_identity" default.localIdentity
    database := ← textAt? node "database" default.database
    refreshInterval := ← secondsAt? devices "refresh_interval_secs" default.refreshInterval
    handshakeExpiry := ← secondsAt? handshake "expiry_secs" default.handshakeExpiry
    pollMin := ← secondsAt? polling "min_interval_secs" default.pollMin
    pollMax := ← secondsAt? polling "max_interval_secs" default.pollMax
    pollIdleLimit := ← secondsAt? polling "idle_limit_secs" default.pollIdleLimit
    maxViewAge := ← secondsAt? unlink "max_view_age_secs" default.maxViewAge }

/-- The configuration in a text. -/
def ofText? (text : String) : Option Config :=
  (Toml.read text).bind ofTable?

/-- The configuration in a file, or the default one where there is no file. -/
def load : Option Octets → Except ConfigError Config
  | none => .ok default
  | some octets =>
    match textOf? octets with
    | none => .error .notText
    | some text =>
      match ofText? text with
      | none => .error .malformed
      | some c => .ok c

/-- One setting as it is written. -/
inductive Setting where
  | text (s : String)
  | seconds (n : UInt64)
  deriving DecidableEq, Repr

/-- The sections of a configuration, in the order in which they are written. -/
def sections (c : Config) : List (String × List (String × Setting)) :=
  [("node", [("local_identity", .text c.localIdentity), ("database", .text c.database)]),
    ("devices", [("refresh_interval_secs", .seconds c.refreshInterval)]),
    ("handshake", [("expiry_secs", .seconds c.handshakeExpiry)]),
    ("polling", [("min_interval_secs", .seconds c.pollMin),
      ("max_interval_secs", .seconds c.pollMax),
      ("idle_limit_secs", .seconds c.pollIdleLimit)]),
    ("unlink", [("max_view_age_secs", .seconds c.maxViewAge)])]

/-- A setting in TOML. A span that does not fit an integer of TOML cannot be written. -/
def Setting.render? : Setting → Option (List Char)
  | .text s => some (Toml.quoted s.toList)
  | .seconds n => if n.toNat ≤ Int64.maxValue.toInt then some (Nat.toDigits 10 n.toNat) else none

/-- A line with a setting. -/
def renderSetting? (s : String × Setting) : Option (List Char) :=
  s.2.render?.map fun v => s.1.toList ++ " = ".toList ++ v ++ ['\n']

/-- A section: its header and its settings. -/
def renderSection? (s : String × List (String × Setting)) : Option (List Char) := do
  let lines ← s.2.mapM renderSetting?
  return '[' :: s.1.toList ++ "]\n".toList ++ lines.flatten

/-- The text of a configuration, with an empty line between two sections. -/
def render? (c : Config) : Option String := do
  let parts ← c.sections.mapM renderSection?
  return String.ofList (List.intercalate ['\n'] parts)

end Config

end Courier

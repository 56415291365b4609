/-!
# Arguments

`Invocation.parse?` reads the arguments of a call of the program: the option that names the
configuration file, then a command with its own arguments.

* An option with a long name takes its value as the next argument or after an equals sign; the
  short one also takes it attached. A next argument that begins with a hyphen is no value, except
  for a single hyphen.
* No option may be given twice.
* After two hyphens every argument is what it is, even if it begins with a hyphen.
-/

namespace Courier.CommandLine

/-- What the program is asked to do. -/
inductive Command where
  /-- To print the configuration. -/
  | config
  /-- To print the poll interval of a group that was idle for some seconds, or never active. -/
  | pollInterval (idle : Option UInt64)
  /-- To list the devices that a message for an identity goes to. -/
  | links (identity : String)
  /-- To list the handshakes under way or expired. -/
  | handshakes
  deriving DecidableEq, Repr

/-- A call of the program. -/
structure Invocation where
  configPath : String
  command : Command
  deriving DecidableEq, Repr

/-- The configuration file that is read if no other one is named. -/
def defaultConfigPath : String :=
  "~/.threadlink/config.toml"

/-- An argument can be the value of the option before it. -/
def isValue (arg : String) : Bool :=
  !arg.startsWith "-" || arg == "-"

/-- How an argument gives an option: its value comes next, or is part of the argument. -/
inductive Given where
  | next
  | attached (value : String)
  deriving DecidableEq, Repr

/-- The option with this long name, if the argument gives it. -/
def longOption? (name arg : String) : Option Given :=
  if arg = "--" ++ name then some .next
  else
    let opening := ("--" ++ name ++ "=").toList
    if opening.isPrefixOf arg.toList then
      some (.attached (String.ofList (arg.toList.drop opening.length)))
    else none

/-- The option with this short name, if the argument gives it. -/
def shortOption? (name : Char) (arg : String) : Option Given :=
  match arg.toList with
  | '-' :: c :: rest =>
    if c ≠ name then none
    else
      match rest with
      | [] => some .next
      | '=' :: value => some (.attached (String.ofList value))
      | value => some (.attached (String.ofList value))
  | _ => none

/-- The value of an option that was given, and the arguments after it. -/
def valueOf? (g : Given) (rest : List String) : Option (String × List String) :=
  match g, rest with
  | .attached v, rest => some (v, rest)
  | .next, v :: rest => if isValue v then some (v, rest) else none
  | .next, [] => none

/-- A number of seconds: digits, perhaps with a plus in front. -/
def seconds? (s : String) : Option UInt64 :=
  let digits := match s.toList with
    | '+' :: rest => rest
    | cs => cs
  if digits ≠ [] ∧ digits.all Char.isDigit then
    let n := digits.foldl (fun n c => 10 * n + (c.toNat - '0'.toNat)) 0
    if n < UInt64.size then some (UInt64.ofNat n) else none
  else none

/-- The end of the arguments of a command that takes no more of them. -/
def atEnd (args : List String) : Bool :=
  args == [] || args == ["--"]

/-- The plain arguments of a command that takes no options. -/
def plain? : List String → Option (List String)
  | [] => some []
  | arg :: rest =>
    if arg = "--" then some rest
    else if isValue arg then (plain? rest).map (arg :: ·)
    else none

/-- The arguments of the command that prints a poll interval. -/
def pollInterval? (args : List String) : Option Command :=
  if atEnd args then some (.pollInterval none)
  else do
    let arg :: rest := args | none
    let (v, rest) ← valueOf? (← longOption? "idle-secs" arg) rest
    let idle ← seconds? v
    if atEnd rest then some (.pollInterval (some idle)) else none

/-- The command with this name and these arguments. -/
def command? (name : String) (args : List String) : Option Command :=
  if name = "config" then if atEnd args then some .config else none
  else if name = "poll-interval" then pollInterval? args
  else if name = "links" then
    match plain? args with
    | some [identity] => some (.links identity)
    | _ => none
  else if name = "handshakes" then if atEnd args then some .handshakes else none
  else none

/-- A call of the program, if the arguments make one. -/
def Invocation.parse? (args : List String) : Option Invocation := do
  let arg :: rest := args | none
  match (longOption? "config" arg).or (shortOption? 'c' arg) with
  | none => return ⟨defaultConfigPath, ← command? arg rest⟩
  | some g =>
    let (path, rest) ← valueOf? g rest
    let name :: rest := rest | none
    return ⟨path, ← command? name rest⟩

end Courier.CommandLine

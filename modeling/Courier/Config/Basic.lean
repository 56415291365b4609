import Courier.Node.Basic

/-!
# Configuration

What an operator can set. Every setting has a default, taken from the era where it touches shared
infrastructure; spans of time are whole seconds.
-/

namespace Courier

/-- The settings of a node, as they stand in its configuration. -/
structure Config where
  /-- The public key of this device. -/
  localIdentity : String
  /-- The path of the database. -/
  database : String
  refreshInterval : UInt64
  handshakeExpiry : UInt64
  pollMin : UInt64
  pollMax : UInt64
  pollIdleLimit : UInt64
  /-- How old the directory's view may be when an unlink request is confirmed; with zero the
  directory is always asked. -/
  maxViewAge : UInt64
  deriving DecidableEq, Repr

namespace Config

/-- The settings that hold where nothing is configured. -/
def default : Config where
  localIdentity := ""
  database := "~/.threadlink/threadlink.db"
  refreshInterval := genesis.linkRefresh
  handshakeExpiry := genesis.handshakeExpiry
  pollMin := genesis.pollMin
  pollMax := genesis.pollMax
  pollIdleLimit := genesis.pollIdleLimit
  maxViewAge := 0

/-- The bounds of the poll interval. -/
def timing (c : Config) : PollTiming :=
  { min := .ofSeconds c.pollMin, max := .ofSeconds c.pollMax,
    idleLimit := .ofSeconds c.pollIdleLimit }

/-- The settings in the form a node works with. -/
def settings (c : Config) : Settings :=
  { localIdentity := c.localIdentity, refreshInterval := .ofSeconds c.refreshInterval,
    handshakeExpiry := .ofSeconds c.handshakeExpiry, timing := c.timing,
    maxViewAge := .ofSeconds c.maxViewAge }

end Config

end Courier

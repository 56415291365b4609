import Courier.Link.Destinations
import Courier.Polling.Interval
import Courier.Store.Basic

/-!
# What the commands print

Columns are filled with spaces on the right. Spans of time are printed in seconds with one decimal,
of which a tie goes to the even digit.
-/

namespace Courier.CommandLine

/-- A text with spaces after it, up to a width. -/
def column (width : Nat) (s : String) : String :=
  s ++ String.ofList (List.replicate (width - s.length) ' ')

/-- A span in seconds with one decimal. -/
def secondsText (d : Duration) : String :=
  let tenths := (roundHalfEven (d.toBinary * 10)).toNat
  toString (tenths / 10) ++ "." ++ toString (tenths % 10) ++ "s"

/-- The line of a device. -/
def destinationLine (d : Destination) : String :=
  column 8 (if d.isMaster then "master" else "slave") ++ " " ++ d.identity

/-- The states whose handshakes are listed, in the order of the list. -/
def listedStates : List HandshakeState :=
  [.pendingSend, .requestSent, .requestReceived, .expired]

/-- The line of a conversation: its state, when the handshake expires, and with whom. -/
def handshakeLine (t : ThreadRow) : String :=
  let expiry := t.handshakeExpiresAt.bind fun ms => Calendar.internetText? ms.toInt
  column 17 t.handshakeState.text ++ " " ++ column 25 (expiry.getD "-") ++ " " ++ t.peer

/-- The lines of the devices that a message for an identity goes to. -/
def destinationLines (identity : Identity) : StoreM (List String) := do
  let links ← Store.readAllDeviceLinks
  return (destinationsIn links identity).map destinationLine

/-- The lines of the handshakes under way or expired. -/
def handshakeLines : StoreM (List String) := do
  let rows ← listedStates.mapM Store.listHandshakes
  return rows.flatten.map handshakeLine

/-- Lines as one text. -/
def unlines (lines : List String) : String :=
  String.join (lines.map (· ++ "\n"))

end Courier.CommandLine

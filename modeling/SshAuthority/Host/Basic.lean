import SshAuthority.Connection.Caller
import SshAuthority.Host.Files
/-!
# The host

What a command can ask of the machine it runs on, for any effect the asking may have.
-/
namespace SshAuthority

open Host Connection in
structure Host (m : Type → Type) extends Files m where
  /-- Runs a program to its end and collects what it writes. -/
  run : Bytes → List Bytes → m (Except Fault Ended)
  /-- Runs a program to its end on the terminal of the command. -/
  runAttached : Bytes → List Bytes → m (Except Fault ExitStatus)
  /-- Makes a directory nobody else uses. -/
  makeDirectory : m (Except Fault Bytes)
  discard : Bytes → m Unit
  print : String → m Unit
  /-- Prints a line where complaints go. -/
  complain : String → m Unit
  /-- Waits for the operator; false when the operator's input ends before a line does. -/
  confirm : m Bool
  hostName : m Bytes
  userNumber : m Nat
  /-- The name of the user in the list of accounts. -/
  accountName : m (Option Bytes)
  environment : String → m (Option Bytes)
  /-- The directory the user's settings are kept in. -/
  settingsHome : m (Option Bytes)
  dial : String → m (Except Fault (Wire.Request → m (Except ClientFault Wire.Response)))
  /-- Listens at an address, and tells the address it got. -/
  listen : String → m (Except Fault String)
  waitForever : m Empty

end SshAuthority

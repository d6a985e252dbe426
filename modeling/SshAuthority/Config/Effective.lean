import SshAuthority.Host.Program
import SshAuthority.Text.Line
import SshAuthority.Text.LowerCase
/-!
# Effective configuration

The daemon prints the configuration it would use, one `key value` line each, keys in lower case and
repeated keys in order. Reading it back yields the values of one key.
-/
namespace SshAuthority.Config

/-- What follows `front` in `cs`, if `cs` begins with it. -/
def after? {α : Type} [BEq α] : List α → List α → Option (List α)
  | [], cs => some cs
  | _ :: _, [] => none
  | x :: front, c :: cs => if x == c then after? front cs else none

def valueOf (key line : List Char) : Option (List Char) :=
  match after? key line with
  | some (' ' :: value) => some value
  | _ => none

/-- Every value of `key` in the printed configuration, whatever the case of `key`. -/
def valuesFor (dump key : String) : List String :=
  let key := Text.lowerCase key.toList
  ((Text.lines dump.toList).filterMap (valueOf key)).map String.ofList

end SshAuthority.Config

import SshAuthority.Json.Value
import SshAuthority.Wire.Message
/-!
# Writing messages

Each message has one written form: its members in a fixed order, without blanks.
-/
namespace SshAuthority

open Json (Value)

def CertificateKind.tag : CertificateKind → String
  | .host => "Host"
  | .user => "User"

namespace Wire

def base64 (bs : Bytes) : Value := .text (Utf8.decodeLossy (Base64.encode bs))

def SignArgs.value (a : SignArgs) : Value :=
  .object
    [("Identity", .text a.identity), ("CertificateKind", .text a.kind.tag),
      ("Principals", .list (a.principals.map .text)), ("PublicKey", base64 a.key)]

def Call.value : Call → Value
  | .publicKey => .object [("Method", .text Method.publicKey.name)]
  | .sign args => .object [("Method", .text Method.sign.name), ("Params", args.value)]

def Request.value (r : Request) : Value :=
  .object [("Seq", .number (.natural r.seq.toNat)), ("Call", r.call.value)]

def Reply.value : Reply → Value
  | .publicKey key => .object [("PublicKey", .object [("CAPublicKey", base64 key)])]
  | .signed certificate => .object [("Signed", .object [("Certificate", base64 certificate)])]

def Failure.value (f : Failure) : Value :=
  .object [("Code", .text f.code.name), ("Message", .text f.message)]

def Result.value : Result → Value
  | .ok reply => .object [("Ok", reply.value)]
  | .err failure => .object [("Err", failure.value)]

def Response.value (r : Response) : Value :=
  .object [("Seq", .number (.natural r.seq.toNat)), ("Result", r.result.value)]

def Request.encode (r : Request) : Bytes := r.value.write

def Response.encode (r : Response) : Bytes := r.value.write

end Wire

end SshAuthority

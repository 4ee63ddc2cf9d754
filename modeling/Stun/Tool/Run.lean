import Stun.Error.Report
import Stun.Message.Decode
import Stun.Message.Encode
import Stun.Tool.Arguments
import Stun.Tool.Dump

/-!
# What the command does

The command prints the message that a text of hexadecimal digits holds, or builds a binding request
and prints its packet. The text is an argument or the input. A command line that cannot be read and
a text that is not hexadecimal end with the status 1, a failure to read or build a message with the
status 2.

## Main definitions

* `Outcome`: the exit status and what is printed.
* `Tool.needsInput`: whether the input has to be read.
* `Tool.run`: what a command line and an input lead to.
-/

namespace Stun

/-- How a command ends. -/
structure Outcome where
  /-- The exit status. -/
  status : Nat := 0
  /-- What is printed. -/
  stdout : Bytes := []
  /-- What is reported. -/
  stderr : Bytes := []
  deriving Repr, DecidableEq

namespace Tool

/-- How to call the command. -/
def usage : String :=
  "usage: stun_dump [--password <password>] [<hex>]\n" ++
  "       stun_dump --build [--username <username>] [--software <text>] " ++
  "[--password <password>]\n" ++
  "\n" ++
  "Decodes a hex encoded STUN message given as an argument or on stdin. With\n" ++
  "--build a Binding request is encoded and printed as hex instead.\n"

/-- How the command reads and writes messages. -/
def profile : Profile := { prep := some Prep.ascii }

/-- The end of a command on a failure. -/
def failed (e : Error) : Outcome :=
  { status := 2, stderr := Bytes.ofString ("error: " ++ e.message ++ "\n") }

/-- The request that a command line asks for, under a transaction id. -/
def request (arguments : Arguments) (id : TransactionId) : Message :=
  let named := (arguments.username.map Attribute.username).toList
  let described := (arguments.software.map Attribute.software).toList
  let sealing := arguments.password.toList.map fun _ => Attribute.messageIntegrity []
  ((named ++ described ++ sealing).foldl Message.add (.start .binding .request id)).addFingerprint

/-- Building a request, with a transaction id from a source of random bytes. -/
def build (arguments : Arguments) (source : Option TransactionId) : Outcome :=
  match drawId source with
  | .error e => failed e
  | .ok id =>
    match (request arguments id).encode profile arguments.password with
    | .error e => failed e
    | .ok packet => { stdout := Hex.encode packet ++ [Ascii.newline] }

/-- Printing the message that a text holds. -/
def dump (arguments : Arguments) (text : Bytes) : Outcome :=
  match Hex.parse? text with
  | none => { status := 1, stderr := Bytes.ofString "error: input is not valid hex\n" }
  | some packet =>
    match Message.decode packet profile arguments.password with
    | .error e => failed e
    | .ok m =>
      let verified := arguments.password.isSome && (m.find? .messageIntegrity).isSome
      let note := if verified then Bytes.ofString "MESSAGE-INTEGRITY verified\n" else []
      { stdout := m.dump ++ note }

/-- Whether a command line leaves the text to the input. -/
def needsInput (words : List Bytes) : Bool :=
  match Arguments.parse? words with
  | none => false
  | some arguments => !arguments.build && arguments.hex.isNone

/-- What a command line and an input lead to. -/
def run (words : List Bytes) (input : Bytes) (source : Option TransactionId) : Outcome :=
  match Arguments.parse? words with
  | none => { status := 1, stderr := Bytes.ofString usage }
  | some arguments =>
    if arguments.build then build arguments source
    else dump arguments (arguments.hex.getD input)

end Tool

end Stun

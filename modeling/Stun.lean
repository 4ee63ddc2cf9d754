import Stun.Bytes.Item
import Stun.Main
import Stun.Proofs.Framing
import Stun.Proofs.Utf8
import Stun.Proofs.Utf8Offsets
import Stun.Proofs.Checksum
import Stun.Proofs.AddressValue
import Stun.Proofs.AttributeValue
import Stun.Proofs.Packet
import Stun.Proofs.Reading
import Stun.Proofs.Grammar
import Stun.Proofs.Authentication
import Stun.Proofs.RoundTrip
import Stun.Proofs.Canonical
import Stun.Proofs.Corruption
import Stun.Proofs.Password
import Stun.Proofs.Layout
import Stun.Proofs.Trailing
import Stun.Proofs.AttributeRecord
import Stun.Proofs.Refusal
import Stun.Proofs.Order
import Stun.Proofs.Size
import Stun.Proofs.AddedFingerprint
import Stun.Proofs.Progress
import Stun.Proofs.LongTerm
import Stun.Proofs.WriteInPlace
import Stun.Proofs.HeaderCodec
import Stun.Proofs.CommandLine
import Stun.Proofs.IpText
import Stun.Proofs.AddressText
import Stun.Proofs.HexText
import Stun.Proofs.Stream
import Stun.Proofs.StreamMemory

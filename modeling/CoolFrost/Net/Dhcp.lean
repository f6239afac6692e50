import CoolFrost.Net.Net

/-!
# The DHCP client

`net/dhcp.c`: the receive callback, which keeps what it has heard in static variables, and
`dhcp_discover`, which polls for an offer and then for an acknowledgement.  A poll of the network
can hand any number of datagrams to the callback, as handling one frame can poll for further ones.

A datagram is the memory from its first byte on with its length, so that the option parser reads
what the receive buffer holds behind the options when it runs over their end.
-/

namespace CoolFrost

/-- What `udp_handle` hands to `dhcp_recv`. -/
structure Datagram where
  data : Bytes
  len : UInt16

/-- The static variables of `net/dhcp.c`. -/
structure Dhcp where
  gotOffer : Bool
  gotAck : Bool
  offeredIp : IpAddr
  serverIp : IpAddr
  offeredMask : IpAddr
  offeredGw : IpAddr
  deriving DecidableEq

/-- `net_ip`, `net_mask` and `net_gw`. -/
structure NetConfig where
  ip : IpAddr
  mask : IpAddr
  gw : IpAddr
  deriving DecidableEq

namespace Dhcp

/-- `DHCP_XID`. -/
def dhcpXid : ℕ := 0xABCD1234
/-- `DHCPOFFER`. -/
def dhcpOffer : UInt8 := 2
/-- `DHCPACK`. -/
def dhcpAck : UInt8 := 5
/-- `sizeof(dhcp_msg_t)`. -/
def dhcpMsgSize : ℕ := 548
/-- The length of the options field. -/
def optionsLen : ℕ := 312
/-- The offset of the options field. -/
def optionsOff : ℕ := 236

/-- `dhcp_option_type` from index `i` on. -/
def optionTypeFrom (opts : Bytes) (olen : ℕ) : ℕ → ℕ → UInt8
  | 0, _ => 0
  | n + 1, i =>
    if i < olen ∧ opts i ≠ 0xFF then
      if opts i = 0 then optionTypeFrom opts olen n (i + 1)
      else if opts i = 53 ∧ opts (i + 1) = 1 then opts (i + 2)
      else optionTypeFrom opts olen n (i + 2 + (opts (i + 1)).toNat)
    else 0

/-- `dhcp_option_type`; the index grows in every round, so `olen` rounds are enough. -/
def dhcpOptionType (opts : Bytes) (olen : ℕ) : UInt8 := optionTypeFrom opts olen olen 4

/-- What `dhcp_parse_options` does with one option. -/
def takeOption (code len : UInt8) (val : IpAddr) (s : Dhcp) : Dhcp :=
  let s := if code = 1 ∧ len = 4 then { s with offeredMask := val } else s
  let s := if code = 3 ∧ 4 ≤ len then { s with offeredGw := val } else s
  if code = 54 ∧ len = 4 then { s with serverIp := val } else s

/-- `dhcp_parse_options` from index `i` on. -/
def parseOptionsFrom (opts : Bytes) (olen : ℕ) : ℕ → ℕ → Dhcp → Dhcp
  | 0, _, s => s
  | n + 1, i, s =>
    if i < olen ∧ opts i ≠ 0xFF then
      if opts i = 0 then parseOptionsFrom opts olen n (i + 1) s
      else
        parseOptionsFrom opts olen n (i + 2 + (opts (i + 1)).toNat)
          (takeOption (opts i) (opts (i + 1)) (.read opts (i + 2)) s)
    else s

/-- `dhcp_parse_options`. -/
def dhcpParseOptions (opts : Bytes) (olen : ℕ) (s : Dhcp) : Dhcp :=
  parseOptionsFrom opts olen olen 4 s

end Dhcp

namespace Datagram

open Dhcp

/-- The options field. -/
def options (d : Datagram) : Bytes := Bytes.shift d.data optionsOff

/-- The message passes the checks of `dhcp_recv`: its length, transaction id, operation and magic
cookie. -/
def accepted (d : Datagram) : Bool :=
  dhcpMsgSize ≤ d.len.toNat ∧ ntohl d.data 4 = dhcpXid ∧ d.data 0 = 2 ∧
    ntohl d.options 0 = 0x63825363

/-- The `yiaddr` field. -/
def yiaddr (d : Datagram) : IpAddr := .read d.data 16

/-- The message type. -/
def mtype (d : Datagram) : UInt8 := dhcpOptionType d.options optionsLen

end Datagram

namespace Dhcp

/-- `dhcp_recv`. -/
def dhcpRecv (s : Dhcp) (d : Datagram) : Dhcp :=
  if !d.accepted then s
  else
    let s := dhcpParseOptions d.options optionsLen s
    if d.mtype = dhcpOffer then { s with offeredIp := d.yiaddr, gotOffer := true }
    else if d.mtype = dhcpAck then { s with offeredIp := d.yiaddr, gotAck := true }
    else s

/-- What `dhcp_send` puts into the options of a request: the requested address and the server
identifier. -/
structure Request where
  requestedIp : IpAddr
  serverId : IpAddr
  deriving DecidableEq

/-- `dhcp_send(DHCPREQUEST)`. -/
def sendRequest (s : Dhcp) : Request := ⟨s.offeredIp, s.serverIp⟩

/-- Poll at most `n` times until `stop`; the result comes with the datagrams delivered and the polls
that are left. -/
def pollUntil (stop : Dhcp → Bool) :
    ℕ → List (List Datagram) → Dhcp → List Datagram × List (List Datagram) × Dhcp
  | 0, polls, s => ([], polls, s)
  | n + 1, polls, s =>
    let s' := (polls.headD []).foldl dhcpRecv s
    if stop s' then (polls.headD [], polls.tail, s')
    else
      let (l, rest, s'') := pollUntil stop n polls.tail s'
      (polls.headD [] ++ l, rest, s'')

/-- A call of `dhcp_discover`: whether it returned 0, the request it sent, the datagrams delivered
after that, and the network configuration afterwards. -/
structure Outcome where
  ok : Bool
  request : Option Request
  after : List Datagram
  config : NetConfig

/-- `dhcp_discover`, with time for `t₁` and `t₂` polls before the two deadlines. -/
def discover (t₁ t₂ : ℕ) (polls : List (List Datagram)) (cfg : NetConfig) (s : Dhcp) : Outcome :=
  let s := { s with gotOffer := false, gotAck := false }
  let (_, polls, s) := pollUntil Dhcp.gotOffer t₁ polls s
  if !s.gotOffer then ⟨false, none, [], cfg⟩
  else
    let request := sendRequest s
    let (after, _, s) := pollUntil Dhcp.gotAck t₂ polls s
    if !s.gotAck then ⟨false, some request, after, cfg⟩
    else ⟨true, some request, after, ⟨s.offeredIp, s.offeredMask, s.offeredGw⟩⟩

/-- The client at boot. -/
def boot : Dhcp := ⟨false, false, .any, .any, .any, .any⟩

end Dhcp

end CoolFrost

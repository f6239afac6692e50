import CoolFrost.Net.Receive

/-!
# Polling the network

`net_poll` within a host: `ip_send` (`net/ip.c`) looks up the hardware address of the next hop, and
`arp_resolve` (`net/arp.c`) polls the network until it is known.  The frame buffer and the reply of
`icmp_handle` are static, so a frame that comes in while a reply is waiting goes into the same
buffers; an address in the frame buffer is passed on by reference.  What comes in and what is sent
is logged.
-/

namespace CoolFrost

open Program

namespace Net

/-- What happens on the network: a frame has come in, here with the addresses of the host and the
frame buffer; `eth_send` has sent a frame; the reply to an echo request has been sent or given
up. -/
inductive Event
  | received (mac : MacAddr) (ip : IpAddr) (frame : Bytes) (len : ℕ)
  | sent (dst : MacAddr) (etype : ℕ) (payload : List UInt8)
  | done

/-- The static variables and buffers, the clock with the time that passes before each reading of it,
and what the network card has at each poll; a frame without bytes is none. -/
structure Host where
  stack : Stack
  mask : IpAddr
  gw : IpAddr
  rx : Bytes
  reply : Bytes
  tick : ℕ
  clock : List ℕ
  frames : List (List UInt8)
  log : List Event

/-- Where an address is: in the frame buffer, in `net_gw` or in a variable of the caller. -/
inductive AddrRef
  | frame (off : ℕ)
  | gateway
  | own (ip : IpAddr)

/-- Where a payload is: in the reply of `icmp_handle` or in a buffer of the caller. -/
inductive DataRef
  | reply
  | own (data : List UInt8)

namespace Host

/-- The address that is referred to. -/
def addr (h : Host) : AddrRef → IpAddr
  | .frame off => .read h.rx off
  | .gateway => h.gw
  | .own ip => ip

/-- The first bytes of the payload that is referred to. -/
def data (h : Host) (len : ℕ) : DataRef → List UInt8
  | .reply => h.reply.slice 0 len
  | .own data => data.take len

/-- Something has happened. -/
def record (h : Host) (e : Event) : Host := { h with log := h.log ++ [e] }

end Host

/-- `get_tick`.  Behind the end of the list the time runs past every deadline. -/
def getTick : Program Host ℕ := do
  modify fun h => { h with tick := h.tick + h.clock.headD (2 ^ 32), clock := h.clock.tail }
  let h ← get
  return h.tick

/-- `eth_send`. -/
def ethSend (dst : MacAddr) (etype : ℕ) (payload : List UInt8) : Program Host PUnit :=
  if 1500 < payload.length then pure PUnit.unit else modify fun h =>
    h.record (.sent dst etype payload)

/-- `arp_send_request`. -/
def arpSendRequest (targetIp : IpAddr) : Program Host PUnit := do
  let h ← get
  ethSend .bcast ethTypeArp
    ([0, 1, 8, 0, 6, 4, 0, 1] ++ h.stack.mac.bytes ++ h.stack.ip.bytes ++ [0, 0, 0, 0, 0, 0] ++
      targetIp.bytes)

/-- A round of the loop of `arp_resolve`. -/
def resolveRound (poll : Program Host PUnit) (ip : AddrRef) (deadline : ℕ) :
    Program Host (PUnit ⊕ Option MacAddr) := do
  let now ← getTick
  if now < deadline then do
    poll
    let h ← get
    match h.stack.arp.arpLookup (h.addr ip) with
    | some mac => return .inr (some mac)
    | none => return .inl PUnit.unit
  else return .inr none

/-- `arp_resolve`. -/
def arpResolve (poll : Program Host PUnit) (ip : AddrRef) : Program Host (Option MacAddr) := do
  let h ← get
  match h.stack.arp.arpLookup (h.addr ip) with
  | some mac => return some mac
  | none => do
    arpSendRequest (h.addr ip)
    let now ← getTick
    let h ← get
    iter (fun _ => resolveRound poll ip (now + 1000)) (h.clock.length + 1) PUnit.unit

/-- The test of `ip_send` whether an address is on the subnet. -/
def onSubnet (ip mask dst : IpAddr) : Bool :=
  dst.b0 &&& mask.b0 = ip.b0 &&& mask.b0 && dst.b1 &&& mask.b1 = ip.b1 &&& mask.b1 &&
    dst.b2 &&& mask.b2 = ip.b2 &&& mask.b2 && dst.b3 &&& mask.b3 = ip.b3 &&& mask.b3

/-- The part of `ip_send` that determines the hardware address. -/
def destination (poll : Program Host PUnit) (dst : AddrRef) : Program Host (Option MacAddr) := do
  let h ← get
  if h.addr dst = .bcast then return some .bcast
  else if h.stack.ip = .any then return none
  else arpResolve poll (if onSubnet h.stack.ip h.mask (h.addr dst) then dst else .gateway)

/-- `ip_send`. -/
def ipSend (poll : Program Host PUnit) (dst : AddrRef) (proto : UInt8) (payload : DataRef)
    (plen : UInt16) :
    Program Host PUnit :=
  if 1480 < plen.toNat then pure PUnit.unit else do
    match ← destination poll dst with
    | none => return PUnit.unit
    | some mac => do
      let h ← get
      ethSend mac ethTypeIp (ipHeader h.stack.ip (h.addr dst)
        proto plen ++ h.data plen.toNat payload)

/-! ## Receiving -/

/-- `e1000_recv`. -/
def e1000Recv : Program Host ℕ := do
  let h ← get
  let frame := (h.frames.headD []).take 1518
  if frame = [] then do
    modify fun h => { h with frames := h.frames.tail }
    return 0
  else do
    modify fun h =>
      let rx := h.rx.blit 0 (.ofList frame) frame.length
      { h with rx := rx, frames := h.frames.tail }.record
      (.received h.stack.mac h.stack.ip rx frame.length)
    return frame.length

/-- What a handler sends.  The reply of `icmp_handle` is in its buffer, and its destination is the
source address of the packet, in the frame buffer. -/
def send (poll : Program Host PUnit) : Sent → Program Host PUnit
  | .eth dst etype payload => ethSend dst etype payload
  | .ip _ proto payload => do
    modify fun h => { h with reply := h.reply.blit 0 (.ofList payload) payload.length }
    ipSend poll (.frame 26) (.ofNat proto) .reply (.ofNat payload.length)
    modify fun h => h.record .done

/-- The handlers on a frame of `len` bytes, with what they send left to be sent. -/
def handle (len : ℕ) : Program Host (List Sent) := do
  let h ← get
  zoom (fun h => { h.stack with sent := [] }) (fun s h => { h with stack := s }) (netPoll h.rx len)
  let h ← get
  return h.stack.sent

/-- `net_poll`, with at most `n` polls within one another. -/
def poll : ℕ → Program Host PUnit
  | 0 => fun _ => none
  | n + 1 => do
    let len ← e1000Recv
    let sent ← handle len
    forM sent (send (poll n))

/-- `net_poll`: every poll within it is for a frame of its own. -/
def netPollHost : Program Host PUnit := fun h => poll (h.frames.length + 1) h

/-! ## What the host does -/

/-- A round of the loop of `icmp_ping`. -/
def pingRound (t0 deadline : ℕ) : Program Host (PUnit ⊕ Option ℕ) := do
  let now ← getTick
  if now < deadline then do
    netPollHost
    let h ← get
    if h.stack.pingGot then do
      modify fun h => { h with stack := { h.stack with pingWaiting := false } }
      let now ← getTick
      return .inr (some (now - t0))
    else return .inl PUnit.unit
  else do
    modify fun h => { h with stack := { h.stack with pingWaiting := false } }
    return .inr none

/-- `icmp_ping`. -/
def icmpPing (dst : IpAddr) (timeout : UInt32) : Program Host (Option ℕ) := do
  modify fun h => { h with
    stack := { h.stack with
      pingSeq := (h.stack.pingSeq + 1) % 65536, pingGot := false, pingWaiting := true } }
  let t0 ← getTick
  let h ← get
  ipSend netPollHost (.own dst) (.ofNat ipProtoIcmp)
    (.own (echoRequest (.ofNat h.stack.pingSeq))) 40
  let h ← get
  iter (fun _ => pingRound t0 (t0 + timeout.toNat)) (h.clock.length + 1) PUnit.unit

/-- `udp_send`. -/
def udpSend (dst : IpAddr) (srcPort dstPort : UInt16) (data : List UInt8) : Program Host PUnit :=
  if 1472 < data.length then pure PUnit.unit else
    let len : UInt16 := .ofNat (8 + data.length)
    ipSend netPollHost (.own dst) (.ofNat ipProtoUdp)
      (.own ([(srcPort >>> 8).toUInt8, srcPort.toUInt8, (dstPort >>> 8).toUInt8, dstPort.toUInt8,
        (len >>> 8).toUInt8, len.toUInt8, 0, 0] ++ data)) len

/-- What the rest of the kernel asks for.  `dhcp_discover` sends datagrams, polls, and stores the
addresses that it has been given. -/
inductive Op
  | poll
  | ping (dst : IpAddr) (timeout : UInt32)
  | udp (dst : IpAddr) (srcPort dstPort : UInt16) (data : List UInt8)
  | lease (ip mask gw : IpAddr)

/-- Do one of these. -/
def Op.run : Op → Program Host PUnit
  | .poll => netPollHost
  | .ping dst timeout => do
    let _rtt ← icmpPing dst timeout
    return PUnit.unit
  | .udp dst srcPort dstPort data => udpSend dst srcPort dstPort data
  | .lease ip mask gw => modify fun h =>
      { h with stack := { h.stack with ip := ip }, mask := mask, gw := gw }

/-- Do one after the other. -/
def runOps : List Op → Program Host PUnit
  | [] => return PUnit.unit
  | op :: ops => do
    op.run
    runOps ops

end Net

end CoolFrost

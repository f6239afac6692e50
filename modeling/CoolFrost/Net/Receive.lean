import CoolFrost.Lib.Buffer
import CoolFrost.Net.Net
import CoolFrost.Net.Checksum

/-!
# The receive path

`net_poll` (`net/net.c`) with `arp_handle`, `ip_recv`, `icmp_handle` and `udp_handle`.  A frame is
the memory of the receive buffer and the number of bytes that have been received, and no byte behind
them can be read.  What the handlers send and the UDP handlers they call are recorded: an `ip_send`,
which may poll the network in its turn, is the last thing that a handler does.
-/

namespace CoolFrost

open Program

namespace MacAddr

/-- The bytes of an address. -/
def bytes (a : MacAddr) : List UInt8 := [a.b0, a.b1, a.b2, a.b3, a.b4, a.b5]

end MacAddr

namespace IpAddr

/-- The bytes of an address. -/
def bytes (a : IpAddr) : List UInt8 := [a.b0, a.b1, a.b2, a.b3]

end IpAddr

namespace Net

/-- `udp_reg_t`. -/
structure UdpReg where
  port : ℕ
  fn : UInt64
  used : Bool

/-- What is sent: a call of `eth_send` or of `ip_send`. -/
inductive Sent
  | eth (dst : MacAddr) (etype : ℕ) (payload : List UInt8)
  | ip (dst : IpAddr) (proto : ℕ) (payload : List UInt8)

/-- A call of a UDP handler: the places of the source address and of the data in the frame. -/
structure Call where
  fn : UInt64
  src : ℕ
  srcPort : ℕ
  data : ℕ
  dlen : ℕ

/-- The static variables, and what has been sent and called. -/
structure Stack where
  mac : MacAddr
  ip : IpAddr
  arp : ArpCache
  pingWaiting : Bool
  pingGot : Bool
  pingSeq : ℕ
  handlers : ℕ → UdpReg
  sent : List Sent
  calls : List Call

/-- `ETH_TYPE_IP`. -/
def ethTypeIp : ℕ := 0x0800
/-- `ETH_TYPE_ARP`. -/
def ethTypeArp : ℕ := 0x0806
/-- `IP_PROTO_ICMP`. -/
def ipProtoIcmp : ℕ := 1
/-- `IP_PROTO_UDP`. -/
def ipProtoUdp : ℕ := 17
/-- `ICMP_PING_ID`. -/
def icmpPingId : ℕ := 0x5A5A
/-- `MAX_UDP_HANDLERS`. -/
def maxUdpHandlers : ℕ := 8

/-! ## Reading the frame -/

/-- The MAC address at `off`. -/
def loadMac (size : ℕ) (frame : Bytes) (off : ℕ) : Program Stack MacAddr := do
  inside size off 6
  return .read frame off

/-- The IP address at `off`. -/
def loadIp (size : ℕ) (frame : Bytes) (off : ℕ) : Program Stack IpAddr := do
  inside size off 4
  return .read frame off

/-- The `len` bytes at `off`. -/
def loadBytes (size : ℕ) (frame : Bytes) (off len : ℕ) : Program Stack (List UInt8) := do
  inside size off len
  return frame.slice off len

/-! ## The handlers -/

/-- The reply of `arp_handle`. -/
def arpReply (mac : MacAddr) (ip : IpAddr) (senderMac : MacAddr) (senderIp : IpAddr) : List UInt8 :=
  [0, 1, 8, 0, 6, 4, 0, 2] ++ mac.bytes ++ ip.bytes ++ senderMac.bytes ++ senderIp.bytes

/-- `arp_handle`. -/
def arpHandle (size : ℕ) (frame : Bytes) (off : ℕ) (len : ℤ) : Program Stack PUnit :=
  if len < 28 then pure PUnit.unit else do
    let hwType ← loadBe size frame off 2
    if hwType ≠ 1 then pure PUnit.unit else do
      let protoType ← loadBe size frame (off + 2) 2
      if protoType ≠ 0x0800 then pure PUnit.unit else do
        let senderIp ← loadIp size frame (off + 14)
        let senderMac ← loadMac size frame (off + 8)
        modify fun s => { s with arp := s.arp.arpInsert senderIp senderMac }
        let opcode ← loadBe size frame (off + 6) 2
        let s ← get
        if opcode ≠ 1 ∨ s.ip = .any then pure PUnit.unit else do
          let targetIp ← loadIp size frame (off + 24)
          if targetIp ≠ s.ip then pure PUnit.unit else
            modify fun s => { s with
              sent := s.sent ++ [.eth senderMac ethTypeArp
                (arpReply s.mac s.ip senderMac senderIp)] }

/-- `icmp_handle`. -/
def icmpHandle (size : ℕ) (frame : Bytes) (src off : ℕ) (len : ℤ) : Program Stack PUnit :=
  if len < 8 then pure PUnit.unit else do
    let type ← loadBe size frame off 1
    if type = 0 then do
      let id ← loadBe size frame (off + 4) 2
      let seq ← loadBe size frame (off + 6) 2
      modify fun s =>
        { s with pingGot := s.pingGot || s.pingWaiting && id = icmpPingId && seq = s.pingSeq }
    else if type = 8 then
      if 1480 < len then pure PUnit.unit else do
        let payload ← loadBytes size frame off len.toNat
        let dst ← loadIp size frame src
        modify fun s => { s with sent := s.sent ++ [.ip dst ipProtoIcmp (echoReply payload)] }
    else pure PUnit.unit

/-- The loop of `udp_handle`: the first handler registered for a port. -/
def Stack.findHandler (s : Stack) (port : ℕ) : Option ℕ :=
  (List.range maxUdpHandlers).find? fun i =>
    (s.handlers i).used && (s.handlers i).port = port && (s.handlers i).fn ≠ 0

/-- The call of a handler in `udp_handle`. -/
def Stack.callHandler (s : Stack) (src srcPort dstPort data dlen : ℕ) : Stack :=
  match s.findHandler dstPort with
  | some i => { s with calls := s.calls ++ [⟨(s.handlers i).fn, src, srcPort, data, dlen⟩] }
  | none => s

/-- The `dlen` of `udp_handle`, which is computed in 16 bits. -/
def udpDlen (ulen : ℕ) (len : ℤ) : ℤ :=
  let dlen := ((ulen : ℤ) - 8) % 65536
  if (len - 8) % 65536 < dlen then (len - 8) % 65536 else dlen

/-- `udp_handle`. -/
def udpHandle (size : ℕ) (frame : Bytes) (src off : ℕ) (len : ℤ) : Program Stack PUnit :=
  if len < 8 then pure PUnit.unit else do
    let dstPort ← loadBe size frame (off + 2) 2
    let srcPort ← loadBe size frame off 2
    let ulen ← loadBe size frame (off + 4) 2
    if ulen < 8 then pure PUnit.unit else
      modify fun s => s.callHandler src srcPort dstPort (off + 8) (udpDlen ulen len).toNat

/-- The `dlen` of `ip_recv`. -/
def ipDlen (totalLen ihl : ℕ) (len : ℤ) : ℤ :=
  let dlen := (totalLen : ℤ) - ihl
  if dlen < 0 ∨ len - ihl < dlen then len - ihl else dlen

/-- `ip_recv`. -/
def ipRecv (size : ℕ) (frame : Bytes) (off : ℕ) (len : ℤ) : Program Stack PUnit :=
  if len < 20 then pure PUnit.unit else do
    let versionIhl ← loadBe size frame off 1
    if versionIhl / 16 ≠ 4 then pure PUnit.unit else do
      let ihl := versionIhl % 16 * 4
      if ihl < 20 ∨ len < ihl then pure PUnit.unit else do
        let dst ← loadIp size frame (off + 16)
        let s ← get
        if dst ≠ s.ip ∧ dst ≠ .bcast then pure PUnit.unit else do
          let totalLen ← loadBe size frame (off + 2) 2
          let protocol ← loadBe size frame (off + 9) 1
          if protocol = ipProtoIcmp then
            icmpHandle size frame (off + 12) (off + ihl) (ipDlen totalLen ihl len)
          else if protocol = ipProtoUdp then
            udpHandle size frame (off + 12) (off + ihl) (ipDlen totalLen ihl len)
          else pure PUnit.unit

/-- `net_poll`, when `e1000_recv` has returned `len`. -/
def netPoll (frame : Bytes) (len : ℕ) : Program Stack PUnit :=
  if len < 14 then pure PUnit.unit else do
    let dst ← loadMac len frame 0
    let s ← get
    if dst ≠ s.mac ∧ dst ≠ .bcast then pure PUnit.unit else do
      let _src ← loadMac len frame 6
      let etype ← loadBe len frame 12 2
      if etype = ethTypeArp then arpHandle len frame 14 ((len : ℤ) - 14)
      else if etype = ethTypeIp then ipRecv len frame 14 ((len : ℤ) - 14)
      else pure PUnit.unit

/-! ## The windows -/

variable {size : ℕ} {frame : Bytes} {s s' : Stack} {src off : ℕ} {len : ℤ}

@[simp] lemma wp_loadMac (Q : MacAddr → Stack → Prop) :
    wp (loadMac size frame off) Q s ↔ off + 6 ≤ size ∧ Q (.read frame off) s := by
  rw [loadMac, wp_bind, wp_inside, wp_pure]

@[simp] lemma wp_loadIp (Q : IpAddr → Stack → Prop) :
    wp (loadIp size frame off) Q s ↔ off + 4 ≤ size ∧ Q (.read frame off) s := by
  rw [loadIp, wp_bind, wp_inside, wp_pure]

@[simp] lemma wp_loadBytes {n : ℕ} (Q : List UInt8 → Stack → Prop) :
    wp (loadBytes size frame off n) Q s ↔ off + n ≤ size ∧ Q (frame.slice off n) s := by
  rw [loadBytes, wp_bind, wp_inside, wp_pure]

/-- The data of every handler that has been called lies inside the frame, and so does the source
address. -/
def Delivered (size : ℕ) (s s' : Stack) : Prop :=
  ∃ calls, s'.calls = s.calls ++ calls ∧ ∀ c ∈ calls, c.src + 4 ≤ size ∧ c.data + c.dlen ≤ size

lemma Delivered.of_calls_eq (h : s'.calls = s.calls) : Delivered size s s' :=
  ⟨[], by rw [h, List.append_nil], fun _ hc => absurd hc List.not_mem_nil⟩

/-- `arp_handle` reads an ARP packet. -/
lemma wp_arpHandle (h : off + len ≤ size) :
    wp (arpHandle size frame off len) (fun _ => Delivered size s) s := by
  refine wp_ite_intro (fun _ => (wp_pure _ _ _).mpr (.of_calls_eq rfl)) fun hlen => ?_
  rw [wp_bind, wp_loadBe]
  refine ⟨by omega, wp_ite_intro (fun _ => (wp_pure _ _ _).mpr (.of_calls_eq rfl)) fun _ => ?_⟩
  rw [wp_bind, wp_loadBe]
  refine ⟨by omega, wp_ite_intro (fun _ => (wp_pure _ _ _).mpr (.of_calls_eq rfl)) fun _ => ?_⟩
  simp only [wp_bind, wp_loadIp, wp_loadMac, wp_modify, wp_loadBe, wp_get]
  refine ⟨by omega, by omega, by omega, ?_⟩
  refine wp_ite_intro (fun _ => (wp_pure _ _ _).mpr (.of_calls_eq rfl)) fun _ => ?_
  rw [wp_bind, wp_loadIp]
  refine ⟨by omega, wp_ite_intro (fun _ => (wp_pure _ _ _).mpr (.of_calls_eq rfl)) fun _ => ?_⟩
  rw [wp_modify]
  exact .of_calls_eq rfl

/-- `icmp_handle` reads the header and, of a request, the packet. -/
lemma wp_icmpHandle (hsrc : src + 4 ≤ size) (h : off + len ≤ size) :
    wp (icmpHandle size frame src off len) (fun _ => Delivered size s) s := by
  refine wp_ite_intro (fun _ => (wp_pure _ _ _).mpr (.of_calls_eq rfl)) fun hlen => ?_
  rw [wp_bind, wp_loadBe]
  refine ⟨by omega, wp_ite_intro (fun _ => ?_) fun _ => wp_ite_intro (fun _ => ?_) fun _ => ?_⟩
  · rw [wp_bind, wp_loadBe, wp_bind, wp_loadBe, wp_modify]
    exact ⟨by omega, by omega, .of_calls_eq rfl⟩
  · refine wp_ite_intro (fun _ => (wp_pure _ _ _).mpr (.of_calls_eq rfl)) fun _ => ?_
    rw [wp_bind, wp_loadBytes, wp_bind, wp_loadIp, wp_modify]
    exact ⟨by omega, hsrc, .of_calls_eq rfl⟩
  · exact (wp_pure _ _ _).mpr (.of_calls_eq rfl)

/-- The length of a datagram is not more than there is behind the header. -/
lemma udpDlen_le {ulen : ℕ} (h : 8 ≤ len) : 0 ≤ udpDlen ulen len ∧ udpDlen ulen len ≤ len - 8 := by
  unfold udpDlen
  dsimp only
  split_ifs <;> omega

lemma delivered_callHandler {srcPort dstPort data dlen : ℕ} (hsrc : src + 4 ≤ size)
    (hdata : data + dlen ≤ size) :
    Delivered size s (s.callHandler src srcPort dstPort data dlen) := by
  rw [Stack.callHandler]
  cases s.findHandler dstPort with
  | none => exact .of_calls_eq rfl
  | some i =>
    refine ⟨_, rfl, fun c hc => ?_⟩
    rw [List.mem_singleton.mp hc]
    exact ⟨hsrc, hdata⟩

/-- `udp_handle` reads the header, and the data is inside the packet. -/
lemma wp_udpHandle (hsrc : src + 4 ≤ size) (h : off + len ≤ size) :
    wp (udpHandle size frame src off len) (fun _ => Delivered size s) s := by
  refine wp_ite_intro (fun _ => (wp_pure _ _ _).mpr (.of_calls_eq rfl)) fun hlen => ?_
  simp only [wp_bind, wp_loadBe]
  refine ⟨by omega, by omega, by omega, ?_⟩
  refine wp_ite_intro (fun _ => (wp_pure _ _ _).mpr (.of_calls_eq rfl)) fun _ => ?_
  rw [wp_modify]
  have hdlen := @udpDlen_le len (Bytes.beNat frame (off + 4) 2) (not_lt.mp hlen)
  exact delivered_callHandler hsrc (by omega)

/-- The length of a packet is not more than there is behind its header. -/
lemma ipDlen_le {totalLen ihl : ℕ} : ipDlen totalLen ihl len ≤ len - ihl := by
  unfold ipDlen
  dsimp only
  split_ifs with h
  · exact le_rfl
  · omega

/-- `ip_recv` reads the header, and what it hands on is inside the packet. -/
lemma wp_ipRecv (h : off + len ≤ size) :
    wp (ipRecv size frame off len) (fun _ => Delivered size s) s := by
  refine wp_ite_intro (fun _ => (wp_pure _ _ _).mpr (.of_calls_eq rfl)) fun hlen => ?_
  rw [wp_bind, wp_loadBe]
  refine ⟨by omega, wp_ite_intro (fun _ => (wp_pure _ _ _).mpr (.of_calls_eq rfl)) fun _ => ?_⟩
  refine wp_ite_intro (fun _ => (wp_pure _ _ _).mpr (.of_calls_eq rfl)) fun hihl => ?_
  simp only [wp_bind, wp_loadIp, wp_get]
  refine ⟨by omega, wp_ite_intro (fun _ => (wp_pure _ _ _).mpr (.of_calls_eq rfl)) fun _ => ?_⟩
  simp only [wp_bind, wp_loadBe]
  have hdlen := @ipDlen_le len (Bytes.beNat frame (off + 2) 2) (Bytes.beNat frame off 1 % 16 * 4)
  refine ⟨by omega, by omega, wp_ite_intro (fun _ => ?_) fun _ => wp_ite_intro (fun _ =>
    ?_) fun _ => ?_⟩
  · exact wp_icmpHandle (by omega) (by push_cast; omega)
  · exact wp_udpHandle (by omega) (by push_cast; omega)
  · exact (wp_pure _ _ _).mpr (.of_calls_eq rfl)

/-- Whatever is in a frame, no byte behind its end is read, and what is handed to a UDP handler lies
inside it. -/
theorem netPoll_inside (frame : Bytes) (len : ℕ) (s : Stack) :
    wp (netPoll frame len) (fun _ => Delivered len s) s := by
  refine wp_ite_intro (fun _ => (wp_pure _ _ _).mpr (.of_calls_eq rfl)) fun hlen => ?_
  simp only [wp_bind, wp_loadMac, wp_get]
  refine ⟨by omega, wp_ite_intro (fun _ => (wp_pure _ _ _).mpr (.of_calls_eq rfl)) fun _ => ?_⟩
  simp only [wp_bind, wp_loadMac, wp_loadBe]
  refine ⟨by omega, by omega, wp_ite_intro (fun _ => ?_) fun _ => wp_ite_intro (fun _ =>
    ?_) fun _ => ?_⟩
  · exact wp_arpHandle (by push_cast; omega)
  · exact wp_ipRecv (by push_cast; omega)
  · exact (wp_pure _ _ _).mpr (.of_calls_eq rfl)

end Net

end CoolFrost

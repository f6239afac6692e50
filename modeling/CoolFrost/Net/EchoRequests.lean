import CoolFrost.Net.Poll

/-!
# Echo requests and replies

What an echo request and an echo reply are on the network, and that `icmp_handle` (`net/icmp.c`)
hands the answer to each request, and nothing else, to `ip_send`.
-/

namespace CoolFrost

open Program

namespace Net

/-! ## Requests and replies -/

/-- The echo request for a host in a frame of `len` bytes: its source and the message. -/
def request (mac : MacAddr) (ip : IpAddr) (frame : Bytes) (len : ℕ) :
    Option (IpAddr × List UInt8) :=
  let ihl := Bytes.beNat frame 14 1 % 16 * 4
  let dlen := ipDlen (Bytes.beNat frame 16 2) ihl ((len : ℤ) - 14)
  if (MacAddr.read frame 0 = mac ∨ MacAddr.read frame 0 = .bcast) ∧
      Bytes.beNat frame 12 2 = ethTypeIp ∧ 34 ≤ len ∧ Bytes.beNat frame 14 1 / 16 = 4 ∧
      20 ≤ ihl ∧ 14 + ihl ≤ len ∧ (IpAddr.read frame 30 = ip ∨ IpAddr.read frame 30 = .bcast) ∧
      Bytes.beNat frame 23 1 = ipProtoIcmp ∧ 8 ≤ dlen ∧ dlen ≤ 1480 ∧
        Bytes.beNat frame (14 + ihl) 1 = 8
  then some (.read frame 26, frame.slice (14 + ihl) dlen.toNat)
  else none

/-- The request that has come in. -/
def Event.request? : Event → Option (IpAddr × List UInt8)
  | .received mac ip frame len => request mac ip frame len
  | _ => none

/-- The echo reply that has been sent: its destination and the message. -/
def Event.reply? : Event → Option (IpAddr × List UInt8)
  | .sent _ etype packet =>
    if etype = ethTypeIp ∧ packet[9]? = some 1 ∧ packet[20]? = some 0 then
      some (.read (.ofList packet) 16, packet.drop 20)
    else none
  | _ => none

/-- A reply goes to the source of a request, with its identifier, number and data and a valid
checksum. -/
structure Answers (r q : IpAddr × List UInt8) : Prop where
  dst : r.1 = q.1
  length : r.2.length = q.2.length
  rest : r.2.drop 4 = q.2.drop 4
  checksum : ipChecksum r.2 = 0

/-- An echo reply has been sent. -/
def IsReply (e : Event) : Prop := e.reply? ≠ none

/-- The reply that has been sent answers the request that has come in. -/
def Fits (a q : Event) : Prop := ∃ r ∈ a.reply?, ∃ r' ∈ q.request?, Answers r r'

/-! ## What the handlers send -/

/-- What is left to be sent for a frame with a request, and for one without. -/
def Hands : Option (IpAddr × List UInt8) → List Sent → Prop
  | some r, sent => sent = [.ip r.1 ipProtoIcmp (echoReply r.2)]
  | none, sent => sent = [] ∨ ∃ dst payload, sent = [.eth dst ethTypeArp payload]

section Handlers

variable {size len : ℕ} {frame : Bytes} {s : Stack} {src off : ℕ} {plen : ℤ}

/-- `arp_handle` sends an ARP packet at most. -/
lemma wp_arpHandle_hands (hs : s.sent = []) (h : off + plen ≤ size) :
    wp (arpHandle size frame off plen) (fun _ s' => Hands none s'.sent) s := by
  refine wp_ite_intro (fun _ => (wp_pure _ _ _).mpr (.inl hs)) fun hlen => ?_
  rw [wp_bind, wp_loadBe]
  refine ⟨by omega, wp_ite_intro (fun _ => (wp_pure _ _ _).mpr (.inl hs)) fun _ => ?_⟩
  rw [wp_bind, wp_loadBe]
  refine ⟨by omega, wp_ite_intro (fun _ => (wp_pure _ _ _).mpr (.inl hs)) fun _ => ?_⟩
  simp only [wp_bind, wp_loadIp, wp_loadMac, wp_modify, wp_loadBe, wp_get]
  refine ⟨by omega, by omega, by omega, ?_⟩
  refine wp_ite_intro (fun _ => (wp_pure _ _ _).mpr (.inl hs)) fun _ => ?_
  rw [wp_bind, wp_loadIp]
  refine ⟨by omega, wp_ite_intro (fun _ => (wp_pure _ _ _).mpr (.inl hs)) fun _ => ?_⟩
  rw [wp_modify, hs]
  exact .inr ⟨_, _, rfl⟩

/-- `udp_handle` sends nothing. -/
lemma wp_udpHandle_hands (hs : s.sent = []) (h : off + plen ≤ size) :
    wp (udpHandle size frame src off plen) (fun _ s' => s'.sent = []) s := by
  refine wp_ite_intro (fun _ => (wp_pure _ _ _).mpr hs) fun hlen => ?_
  simp only [wp_bind, wp_loadBe]
  refine ⟨by omega, by omega, by omega, wp_ite_intro (fun _ => (wp_pure _ _ _).mpr hs) fun _ => ?_⟩
  rw [wp_modify, Stack.callHandler]
  split
  · exact hs
  · exact hs

/-- `icmp_handle` sends the reply to an echo request. -/
lemma wp_icmpHandle_hands (hs : s.sent = []) (hsrc : src + 4 ≤ size) (h : off + plen ≤ size) :
    wp (icmpHandle size frame src off plen) (fun _ s' => Hands
      (if 8 ≤ plen ∧ plen ≤ 1480 ∧ Bytes.beNat frame off 1 = 8 then
        some (.read frame src, frame.slice off plen.toNat) else none) s'.sent) s := by
  refine wp_ite_intro (fun hlen => ?_) fun hlen => ?_
  · rw [wp_pure, if_neg fun hc => absurd hc.1 (not_le.mpr hlen)]
    exact .inl hs
  rw [wp_bind, wp_loadBe]
  refine ⟨by omega, wp_ite_intro (fun htype => ?_) fun _ =>
    wp_ite_intro (fun htype => ?_) fun htype => ?_⟩
  · rw [wp_bind, wp_loadBe, wp_bind, wp_loadBe, wp_modify, if_neg fun hc => by
      rw [htype] at hc
      exact absurd hc.2.2 (by decide)]
    exact ⟨by omega, by omega, .inl hs⟩
  · refine wp_ite_intro (fun hlarge => ?_) fun hlarge => ?_
    · rw [wp_pure, if_neg fun hc => absurd hc.2.1 (not_le.mpr hlarge)]
      exact .inl hs
    · rw [wp_bind, wp_loadBytes, wp_bind, wp_loadIp, wp_modify, hs,
        if_pos ⟨not_lt.mp hlen, not_lt.mp hlarge, htype⟩]
      exact ⟨by omega, hsrc, rfl⟩
  · rw [wp_pure, if_neg fun hc => htype hc.2.2]
    exact .inl hs

/-- The handlers send the reply to an echo request, or an ARP packet at most. -/
lemma wp_netPoll_hands (hs : s.sent = []) :
    wp (netPoll frame len) (fun _ s' => Hands (request s.mac s.ip frame len) s'.sent) s := by
  refine wp_ite_intro (fun hlen => ?_) fun hlen => ?_
  · rw [wp_pure, request, if_neg fun hc => by omega]
    exact .inl hs
  simp only [wp_bind, wp_loadMac, wp_get]
  refine ⟨by omega, wp_ite_intro (fun hdst => ?_) fun hdst => ?_⟩
  · rw [wp_pure, request, if_neg fun hc => hc.1.elim hdst.1 hdst.2]
    exact .inl hs
  simp only [wp_bind, wp_loadMac, wp_loadBe]
  have hmac : MacAddr.read frame 0 = s.mac ∨ MacAddr.read frame 0 = .bcast := by
    rwa [← or_iff_not_and_not] at hdst
  refine ⟨by omega, by omega, wp_ite_intro (fun htype => ?_) fun _ => wp_ite_intro (fun htype => ?_)
    fun htype => ?_⟩
  · rw [request, if_neg fun hc => absurd (htype.symm.trans hc.2.1) (by decide)]
    exact wp_arpHandle_hands hs (by push_cast; omega)
  · -- the IP packet: the conditions of `ip_recv` one by one
    refine wp_ite_intro (fun hshort => ?_) fun hshort => ?_
    · rw [wp_pure, request, if_neg fun hc => by omega]
      exact .inl hs
    rw [wp_bind, wp_loadBe]
    refine ⟨by omega, wp_ite_intro (fun hversion => ?_) fun hversion => ?_⟩
    · rw [wp_pure, request, if_neg fun hc => hversion hc.2.2.2.1]
      exact .inl hs
    refine wp_ite_intro (fun hihl => ?_) fun hihl => ?_
    · rw [wp_pure, request, if_neg fun hc => by omega]
      exact .inl hs
    simp only [wp_bind, wp_loadIp, wp_get]
    refine ⟨by omega, wp_ite_intro (fun hip => ?_) fun hip => ?_⟩
    · rw [wp_pure, request, if_neg fun hc => hc.2.2.2.2.2.2.1.elim hip.1 hip.2]
      exact .inl hs
    have hdstIp : IpAddr.read frame 30 = s.ip ∨ IpAddr.read frame 30 = .bcast := by
      rwa [← or_iff_not_and_not] at hip
    simp only [wp_bind, wp_loadBe]
    have hdlen := @ipDlen_le ((len : ℤ) - 14) (Bytes.beNat frame 16 2)
      (Bytes.beNat frame 14 1 % 16 * 4)
    refine ⟨by omega, by omega, wp_ite_intro (fun hproto => ?_) fun hproto =>
      wp_ite_intro (fun _ => ?_) fun _ => ?_⟩
    · refine wp_mono (wp_icmpHandle_hands hs (by omega) (by push_cast; omega)) ?_
      intro _ s' hands
      have hrequest : request s.mac s.ip frame len = _ := if_congr (iff_def.mpr
        ⟨fun hc => hc.2.2.2.2.2.2.2.2, fun hrest =>
          ⟨hmac, htype, by omega, not_not.mp hversion, by omega,
          by omega, hdstIp, hproto, hrest⟩⟩) rfl rfl
      rw [hrequest]
      exact hands
    · rw [request, if_neg fun hc => hproto hc.2.2.2.2.2.2.2.1]
      exact wp_mono (wp_udpHandle_hands hs (by push_cast; omega)) fun _ _ h => .inl h
    · rw [wp_pure, request, if_neg fun hc => hproto hc.2.2.2.2.2.2.2.1]
      exact .inl hs
  · rw [wp_pure, request, if_neg fun hc => htype hc.2.1]
    exact .inl hs

end Handlers

/-! ## Packets and replies -/

lemma not_isReply_arp (dst : MacAddr) (payload : List UInt8) :
    ¬IsReply (.sent dst ethTypeArp payload) := by
  rw [IsReply, not_not, Event.reply?, if_neg]
  rintro ⟨htype, -⟩
  exact absurd htype (by decide)

/-- A packet of `ip_send` is an echo reply if its payload is. -/
lemma reply?_ip (mac : MacAddr) (src dst : IpAddr) (proto : UInt8) (plen : UInt16)
    (data : List UInt8) :
    (Event.sent mac ethTypeIp (ipHeader src dst proto plen ++ data)).reply? =
      if proto = 1 ∧ data[0]? = some 0 then some (dst, data) else none := by
  refine if_congr ⟨?_, ?_⟩ rfl rfl
  · rintro ⟨-, hproto, hdata⟩
    exact ⟨Option.some.inj hproto, hdata⟩
  · rintro ⟨rfl, hdata⟩
    exact ⟨rfl, rfl, hdata⟩

variable {mac : MacAddr} {ip : IpAddr} {frame : Bytes} {len : ℕ} {r : IpAddr × List UInt8}

lemma length_echoReply (msg : List UInt8) : (echoReply msg).length = msg.length := by
  rw [echoReply, length_storeChecksum, List.length_set, List.length_set, List.length_set]

lemma drop_echoReply (msg : List UInt8) : (echoReply msg).drop 4 = msg.drop 4 := by
  rw [echoReply, storeChecksum]
  simp only [List.drop_set_of_lt, Nat.reduceLT, Nat.reduceAdd]

/-- A request has a header, and is not too long to be answered. -/
lemma request_spec (hr : request mac ip frame len = some r) :
    r.1 = .read frame 26 ∧ 8 ≤ r.2.length ∧ r.2.length ≤ 1480 := by
  unfold request at hr
  dsimp only at hr
  split_ifs at hr with hc
  obtain rfl := Option.some.inj hr
  have hmin := hc.2.2.2.2.2.2.2.2.1
  have hmax := hc.2.2.2.2.2.2.2.2.2.1
  refine ⟨rfl, ?_⟩
  rw [Bytes.length_slice]
  omega

/-- The reply that is sent to a request answers it. -/
lemma answers_echoReply (hmin : 8 ≤ r.2.length) (hmax : r.2.length ≤ 1480) :
    Answers (r.1, echoReply r.2) r :=
  ⟨rfl, length_echoReply r.2, drop_echoReply r.2, ipChecksum_echoReply hmin hmax⟩

end Net

end CoolFrost

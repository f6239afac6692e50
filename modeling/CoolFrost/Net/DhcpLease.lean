import CoolFrost.Net.Dhcp

/-!
# Where a DHCP lease comes from

The callback keeps, of everything it hears, the last address offered or acknowledged, the last mask,
the last gateway and the last server.  So what `dhcp_discover` installs is put together from the
last messages that carry each part, and is one acknowledgement exactly when those messages agree
with one.
-/

namespace CoolFrost

open Dhcp

/-! ## The parts of a message -/

namespace Dhcp

/-- The address in the last option from index `i` on whose code and length are wanted. -/
def optionFrom (want : UInt8 → UInt8 → Bool) (opts : Bytes) (olen : ℕ) : ℕ → ℕ → Option IpAddr
  | 0, _ => none
  | n + 1, i =>
    if i < olen ∧ opts i ≠ 0xFF then
      if opts i = 0 then optionFrom want opts olen n (i + 1)
      else
        (optionFrom want opts olen n (i + 2 + (opts (i + 1)).toNat)).or
          (if want (opts i) (opts (i + 1)) then some (.read opts (i + 2)) else none)
    else none

/-- A subnet mask. -/
def isMask (code len : UInt8) : Bool := code = 1 ∧ len = 4
/-- A router. -/
def isRouter (code len : UInt8) : Bool := code = 3 ∧ 4 ≤ len
/-- A server identifier. -/
def isServer (code len : UInt8) : Bool := code = 54 ∧ len = 4

lemma takeOption_eq (code len : UInt8) (val : IpAddr) (s : Dhcp) :
    takeOption code len val s =
      { s with
        offeredMask := if isMask code len then val else s.offeredMask
        offeredGw := if isRouter code len then val else s.offeredGw
        serverIp := if isServer code len then val else s.serverIp } := by
  simp only [takeOption, isMask, isRouter, isServer, decide_eq_true_eq]
  split_ifs <;> rfl

/-- Parsing keeps the last option of each kind. -/
lemma parseOptionsFrom_eq (opts : Bytes) (olen n i : ℕ) (s : Dhcp) :
    parseOptionsFrom opts olen n i s =
      { s with
        offeredMask := (optionFrom isMask opts olen n i).getD s.offeredMask
        offeredGw := (optionFrom isRouter opts olen n i).getD s.offeredGw
        serverIp := (optionFrom isServer opts olen n i).getD s.serverIp } := by
  have hor : ∀ (a : Option IpAddr) (c : Bool) (v x : IpAddr),
      (a.or (if c then some v else none)).getD x = a.getD (if c then v else x) := by
    intro a c v x
    cases a <;> cases c <;> rfl
  induction n generalizing i s with
  | zero => rfl
  | succ n ih =>
    unfold parseOptionsFrom
    simp only [optionFrom]
    by_cases h : i < olen ∧ opts i ≠ 0xFF
    · by_cases h0 : opts i = 0
      · simp only [if_pos h, if_pos h0, ih]
      · simp only [if_pos h, if_neg h0, ih, hor, takeOption_eq]
    · simp only [if_neg h]
      rfl

end Dhcp

namespace Datagram

/-- The address in the last option of a kind. -/
def option (want : UInt8 → UInt8 → Bool) (d : Datagram) : Option IpAddr :=
  optionFrom want d.options optionsLen optionsLen 4

/-- The message is an offer. -/
def isOffer (d : Datagram) : Bool := d.accepted && d.mtype = dhcpOffer

/-- The message is an acknowledgement. -/
def isAck (d : Datagram) : Bool := d.accepted && d.mtype = dhcpAck

/-- The address that the message offers or acknowledges. -/
def address (d : Datagram) : Option IpAddr := if d.isOffer || d.isAck then some d.yiaddr else none

/-- The subnet mask in the message. -/
def mask (d : Datagram) : Option IpAddr := if d.accepted then d.option isMask else none

/-- The gateway in the message. -/
def router (d : Datagram) : Option IpAddr := if d.accepted then d.option isRouter else none

/-- The server identifier in the message. -/
def server (d : Datagram) : Option IpAddr := if d.accepted then d.option isServer else none

end Datagram

namespace Dhcp

/-- The last of some part of the messages that have it. -/
def lastOf (f : Datagram → Option IpAddr) (l : List Datagram) : Option IpAddr :=
  (l.filterMap f).getLast?

lemma lastOf_append (f : Datagram → Option IpAddr) (l l' : List Datagram) :
    lastOf f (l ++ l') = (lastOf f l').or (lastOf f l) := by
  rw [lastOf, List.filterMap_append, List.getLast?_append]
  rfl

/-- What the callback makes of one message. -/
lemma dhcpRecv_eq (s : Dhcp) (d : Datagram) :
    dhcpRecv s d =
      { gotOffer := s.gotOffer || d.isOffer
        gotAck := s.gotAck || d.isAck
        offeredIp := d.address.getD s.offeredIp
        serverIp := d.server.getD s.serverIp
        offeredMask := d.mask.getD s.offeredMask
        offeredGw := d.router.getD s.offeredGw } := by
  unfold dhcpRecv
  cases ha : d.accepted with
  | false =>
    simp [Datagram.isOffer, Datagram.isAck, Datagram.address, Datagram.server, Datagram.mask,
      Datagram.router, ha]
  | true =>
    have hne : dhcpOffer ≠ dhcpAck := by decide
    rw [dhcpParseOptions, parseOptionsFrom_eq]
    by_cases ho : d.mtype = dhcpOffer
    · simp [Datagram.isOffer, Datagram.isAck, Datagram.address, Datagram.server, Datagram.mask,
        Datagram.router, Datagram.option, ha, ho, hne]
    · by_cases hk : d.mtype = dhcpAck
      · simp [Datagram.isOffer, Datagram.isAck, Datagram.address, Datagram.server, Datagram.mask,
          Datagram.router, Datagram.option, ha, hk, hne.symm]
      · simp [Datagram.isOffer, Datagram.isAck, Datagram.address, Datagram.server, Datagram.mask,
          Datagram.router, Datagram.option, ha, ho, hk]

/-- The callback keeps the last of each part of what it hears. -/
lemma foldl_dhcpRecv_eq (l : List Datagram) (s : Dhcp) :
    l.foldl dhcpRecv s =
      { gotOffer := s.gotOffer || l.any Datagram.isOffer
        gotAck := s.gotAck || l.any Datagram.isAck
        offeredIp := (lastOf Datagram.address l).getD s.offeredIp
        serverIp := (lastOf Datagram.server l).getD s.serverIp
        offeredMask := (lastOf Datagram.mask l).getD s.offeredMask
        offeredGw := (lastOf Datagram.router l).getD s.offeredGw } := by
  have hcons : ∀ (f : Datagram → Option IpAddr) (d : Datagram) (l : List Datagram) (x : IpAddr),
      (lastOf f l).getD ((f d).getD x) = (lastOf f (d :: l)).getD x := by
    intro f d l x
    rw [← List.singleton_append, lastOf_append]
    have hone : lastOf f [d] = f d := by
      unfold lastOf
      cases hf : f d <;> simp [hf]
    rw [hone]
    cases lastOf f l <;> rfl
  induction l generalizing s with
  | nil => simp [lastOf]
  | cons d l ih =>
    rw [List.foldl_cons, ih, dhcpRecv_eq]
    simp only [hcons, List.any_cons, Bool.or_assoc]

/-- A message of a list that has a part leaves that part behind. -/
lemma lastOf_isSome {f : Datagram → Option IpAddr} {l : List Datagram} {m : Datagram} (hm : m ∈ l)
    (hf : (f m).isSome) : ∃ a, lastOf f l = some a := by
  obtain ⟨a, ha⟩ := Option.isSome_iff_exists.mp hf
  exact Option.ne_none_iff_exists'.mp
    (mt List.getLast?_eq_none_iff.mp (List.ne_nil_of_mem (List.mem_filterMap.mpr ⟨m, hm, ha⟩)))

/-! ## The two phases -/

/-- The polls up to the first one that satisfies `p`, `n` at most. -/
def upTo (p : List Datagram → Bool) : ℕ → List (List Datagram) → List (List Datagram)
  | 0, _ => []
  | n + 1, polls =>
    if p (polls.headD []) then [polls.headD []] else polls.headD [] :: upTo p n polls.tail

/-- Polling until a flag is set that some kind of message sets. -/
lemma pollUntil_eq {stop : Dhcp → Bool} {kind : Datagram → Bool}
    (hstop : ∀ (l : List Datagram) (s : Dhcp),
      stop (l.foldl dhcpRecv s) = (stop s || l.any kind))
    (n : ℕ) (polls : List (List Datagram)) (s : Dhcp) :
    pollUntil stop n polls s =
      ((upTo (fun l => stop s || l.any kind) n polls).flatten,
        polls.drop (upTo (fun l => stop s || l.any kind) n polls).length,
        (upTo (fun l => stop s || l.any kind) n polls).flatten.foldl dhcpRecv s) := by
  induction n generalizing polls s with
  | zero => rfl
  | succ n ih =>
    unfold pollUntil upTo
    simp only [hstop]
    split_ifs with h
    · simp
    · have hs : stop s = false := by
        rw [Bool.or_eq_true, not_or] at h
        exact Bool.not_eq_true _ ▸ h.1
      have hl : (polls.headD []).any kind = false := by
        rw [Bool.or_eq_true, not_or] at h
        exact Bool.not_eq_true _ ▸ h.2
      rw [ih, hstop, hs, hl]
      simp

/-- The datagrams delivered while an offer is waited for. -/
def phase1 (t₁ : ℕ) (polls : List (List Datagram)) : List (List Datagram) :=
  upTo (fun l => l.any Datagram.isOffer) t₁ polls

/-- The datagrams delivered after the request has been sent. -/
def phase2 (t₁ t₂ : ℕ) (polls : List (List Datagram)) : List (List Datagram) :=
  upTo (fun l => (phase1 t₁ polls).flatten.any Datagram.isAck || l.any Datagram.isAck) t₂
    (polls.drop (phase1 t₁ polls).length)

/-- What `dhcp_discover` does, in terms of the datagrams delivered in its two phases. -/
lemma discover_eq (t₁ t₂ : ℕ) (polls : List (List Datagram)) (cfg : NetConfig) (s : Dhcp) :
    discover t₁ t₂ polls cfg s =
      let l₁ := (phase1 t₁ polls).flatten
      let l₂ := (phase2 t₁ t₂ polls).flatten
      let s₁ := l₁.foldl dhcpRecv { s with gotOffer := false, gotAck := false }
      let s₂ := l₂.foldl dhcpRecv s₁
      if !l₁.any Datagram.isOffer then ⟨false, none, [], cfg⟩
      else if !(l₁.any Datagram.isAck || l₂.any Datagram.isAck) then
        ⟨false, some (sendRequest s₁), l₂, cfg⟩
      else ⟨true, some (sendRequest s₁), l₂, ⟨s₂.offeredIp, s₂.offeredMask, s₂.offeredGw⟩⟩ := by
  have hoffer : ∀ (l : List Datagram) (s : Dhcp),
      (l.foldl dhcpRecv s).gotOffer = (s.gotOffer || l.any Datagram.isOffer) := fun l s => by
    rw [foldl_dhcpRecv_eq]
  have hack : ∀ (l : List Datagram) (s : Dhcp),
      (l.foldl dhcpRecv s).gotAck = (s.gotAck || l.any Datagram.isAck) := fun l s => by
    rw [foldl_dhcpRecv_eq]
  simp only [discover, pollUntil_eq hoffer, pollUntil_eq hack, hoffer, hack, Bool.false_or]
  rfl

/-- The lease is that of one acknowledgement, which came after the request, grants the address asked
for and is from the server asked. -/
def LeaseIntegrity (o : Outcome) : Prop :=
  o.ok = true → ∃ m ∈ o.after, m.isAck = true ∧
    (∃ server, m.server = some server ∧ o.request = some ⟨m.yiaddr, server⟩) ∧
    o.config.ip = m.yiaddr ∧ m.mask = some o.config.mask ∧ m.router = some o.config.gw

/-- Among the messages after the request there is an acknowledgement of the address last offered by
the server last named before it, with a mask and a gateway, and the last address, mask and gateway
heard after the request are those of that message. -/
def OneAck (pre l₁ l₂ : List Datagram) : Prop :=
  ∃ m ∈ l₂, m.isAck = true ∧ lastOf Datagram.address l₁ = some m.yiaddr ∧
    m.server = some ((lastOf Datagram.server (pre ++ l₁)).getD .any) ∧
    lastOf Datagram.address l₂ = some m.yiaddr ∧
    (m.mask.isSome ∧ lastOf Datagram.mask l₂ = m.mask) ∧
    (m.router.isSome ∧ lastOf Datagram.router l₂ = m.router)

/-- A part that a message after the request has is kept as the last one heard after it. -/
lemma getD_lastOf {f : Datagram → Option IpAddr} {l : List Datagram} {m : Datagram} (hm : m ∈ l)
    (x : IpAddr) :
    f m = some ((lastOf f l).getD x) ↔ (f m).isSome ∧ lastOf f l = f m := by
  constructor
  · intro h
    have hsome : (f m).isSome := by rw [h]; rfl
    obtain ⟨a, ha⟩ := lastOf_isSome hm hsome
    exact ⟨hsome, by rw [h, ha]; rfl⟩
  · rintro ⟨hsome, heq⟩
    obtain ⟨a, ha⟩ := Option.isSome_iff_exists.mp hsome
    rw [heq, ha]
    rfl

/-- A call of `dhcp_discover` that succeeds installs a lease of one acknowledgement exactly when the
messages of its second phase leave that acknowledgement standing. -/
theorem leaseIntegrity_iff (pre : List Datagram) (t₁ t₂ : ℕ) (polls : List (List Datagram))
    (cfg : NetConfig) :
    LeaseIntegrity (discover t₁ t₂ polls cfg (pre.foldl dhcpRecv boot)) ↔
      ((phase1 t₁ polls).flatten.any Datagram.isOffer = true →
        ((phase1 t₁ polls).flatten.any Datagram.isAck ||
          (phase2 t₁ t₂ polls).flatten.any Datagram.isAck) = true →
        OneAck pre (phase1 t₁ polls).flatten (phase2 t₁ t₂ polls).flatten) := by
  rw [discover_eq]
  generalize (phase1 t₁ polls).flatten = l₁
  generalize (phase2 t₁ t₂ polls).flatten = l₂
  simp only [foldl_dhcpRecv_eq, sendRequest]
  by_cases hoffer : l₁.any Datagram.isOffer = true
  · by_cases hack : (l₁.any Datagram.isAck || l₂.any Datagram.isAck) = true
    · have hserver : (lastOf Datagram.server l₁).getD
          ((lastOf Datagram.server pre).getD boot.serverIp) =
          (lastOf Datagram.server (pre ++ l₁)).getD .any := by
        rw [lastOf_append]
        cases lastOf Datagram.server l₁ <;> rfl
      obtain ⟨o, ho, hoo⟩ := List.any_eq_true.mp hoffer
      obtain ⟨requested, hreq⟩ : ∃ a, lastOf Datagram.address l₁ = some a :=
        lastOf_isSome ho (by simp [Datagram.address, hoo])
      have hgranted : ∀ m ∈ l₂, m.isAck = true →
          ((lastOf Datagram.address l₂).getD requested = m.yiaddr ↔
            lastOf Datagram.address l₂ = some m.yiaddr) := by
        intro m hm hma
        obtain ⟨a, ha⟩ := lastOf_isSome hm (f := Datagram.address) (by simp [Datagram.address, hma])
        rw [ha, Option.getD_some, Option.some.injEq]
      simp only [hoffer, hack, Bool.not_true, Bool.false_eq_true, if_false, true_implies,
        LeaseIntegrity, OneAck, hserver, hreq, Option.getD_some, Option.some.injEq]
      refine exists_congr fun m => and_congr_right fun hm => and_congr_right fun hma => ?_
      rw [getD_lastOf hm, getD_lastOf hm, hgranted m hm hma]
      constructor
      · rintro ⟨⟨server, hs, hrs⟩, hrest⟩
        obtain ⟨rfl, rfl⟩ := Request.mk.inj hrs
        exact ⟨rfl, hs, hrest⟩
      · rintro ⟨rfl, hs, hrest⟩
        exact ⟨⟨_, hs, rfl⟩, hrest⟩
    · simp [hoffer, hack, LeaseIntegrity]
  · simp [hoffer, LeaseIntegrity]

/-- A message of the given type with a mask, a router and a server identifier. -/
def message (mtype : UInt8) (address server : IpAddr) : Datagram where
  data := Bytes.ofList
    ([2, 1, 6, 0, 0xAB, 0xCD, 0x12, 0x34, 0, 0, 0, 0, 0, 0, 0, 0,
      address.b0, address.b1, address.b2, address.b3] ++ List.replicate 216 0 ++
      [0x63, 0x82, 0x53, 0x63, 53, 1, mtype, 1, 4, 255, 255, 255, 0, 3, 4, 10, 0, 0, 1,
        54, 4, server.b0, server.b1, server.b2, server.b3, 0xFF])
  len := 548

/-- An acknowledgement of an earlier exchange arrives before the offer: the address of the offer is
installed though nobody has acknowledged it. -/
theorem not_leaseIntegrity_late_ack :
    ¬LeaseIntegrity (discover 2 1
      [[message dhcpAck ⟨10, 0, 0, 9⟩ ⟨10, 0, 0, 1⟩],
        [message dhcpOffer ⟨10, 0, 0, 5⟩ ⟨10, 0, 0, 1⟩]]
      ⟨.any, .any, .any⟩ boot) := by
  intro h
  obtain ⟨m, hm, -⟩ := h (by decide +kernel)
  have hnone : (discover 2 1
      [[message dhcpAck ⟨10, 0, 0, 9⟩ ⟨10, 0, 0, 1⟩],
        [message dhcpOffer ⟨10, 0, 0, 5⟩ ⟨10, 0, 0, 1⟩]]
      ⟨.any, .any, .any⟩ boot).after.length = 0 := by decide +kernel
  rw [List.length_eq_zero_iff.mp hnone] at hm
  exact List.not_mem_nil hm

end Dhcp

end CoolFrost

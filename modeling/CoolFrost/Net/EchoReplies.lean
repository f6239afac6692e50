import CoolFrost.Lib.Answering
import CoolFrost.Net.EchoRequests

/-!
# Echo replies of a run

Which echo requests the replies of a host answer.  While a reply waits for the hardware address of
its next hop (`arp_resolve`, `net/arp.c`), a frame that comes in may change its destination, which
is in the frame buffer, and another request may change its message.  `runOps_answered` says that
every reply answers a request of its own unless it is sent after such a frame.
-/

namespace CoolFrost

open Program Answering

namespace Net

/-! ## Replies that wait -/

/-- A reply that has not been sent yet: the place of its request in the log, the source and the
message of it, and whether the frames that have come in since left the destination and the reply as
they were. -/
structure Wait where
  place : ℕ
  src : IpAddr
  msg : List UInt8
  intact : Bool

/-- A frame has come in, perhaps with a request. -/
def Wait.touch (frame : Bytes) (r : Option (IpAddr × List UInt8)) (w : Wait) : Wait :=
  { w with intact := w.intact && IpAddr.read frame 26 = w.src &&
      r.all fun r => (echoReply r.2).take w.msg.length = (echoReply w.msg).take r.2.length }

/-- The replies that wait after an event, the last one first, and the number of events. -/
def await (p : ℕ × List Wait) (e : Event) : ℕ × List Wait :=
  (p.1 + 1,
    match e with
    | .received mac ip frame len =>
      ((request mac ip frame len).map fun r => ⟨p.1, r.1, r.2, true⟩).toList ++
        p.2.map (Wait.touch frame (request mac ip frame len))
    | .sent _ _ _ => p.2
    | .done => p.2.tail)

/-- The replies that wait after what has happened. -/
def waits (log : List Event) : List Wait := (log.foldl await (0, [])).2

/-- No reply has been sent after a frame that changed its destination or its message. -/
def Calm (log : List Event) : Prop :=
  ∀ pre e, pre ++ [e] <+: log → IsReply e → ∀ w ∈ (waits pre).head?, w.intact = true

variable {log : List Event} {e : Event} {h h' h'' : Host} {w : Wait} {ws : List Wait} {P : Set ℕ}
  {mac : MacAddr} {ip : IpAddr} {frame : Bytes} {len : ℕ} {r : IpAddr × List UInt8}

lemma length_progress (log : List Event) : (log.foldl await (0, [])).1 = log.length := by
  induction log using List.reverseRecOn with
  | nil => rfl
  | append_singleton log e ih =>
    rw [List.foldl_concat, List.length_append, List.length_singleton, ← ih]
    rfl

lemma waits_concat (log : List Event) (e : Event) :
    waits (log ++ [e]) = (await (log.length, waits log) e).2 := by
  rw [waits, List.foldl_concat, ← length_progress log]
  rfl

lemma waits_sent {dst : MacAddr} {etype : ℕ} {payload : List UInt8} :
    waits (log ++ [.sent dst etype payload]) = waits log :=
  waits_concat _ _

lemma waits_done : waits (log ++ [.done]) = (waits log).tail :=
  waits_concat _ _

lemma calm_concat : Calm (log ++ [e]) ↔
    Calm log ∧ (IsReply e → ∀ w ∈ (waits log).head?, w.intact = true) := by
  constructor
  · intro hcalm
    exact ⟨fun pre e hpre => hcalm pre e (hpre.trans (List.prefix_append _ _)),
      hcalm log e List.prefix_rfl⟩
  · rintro ⟨hcalm, he⟩ pre e' hpre
    rcases List.prefix_concat_iff.mp hpre with heq | hpre
    · obtain ⟨rfl, hee⟩ := List.append_inj' heq rfl
      obtain rfl := List.singleton_inj.mp hee
      exact he
    · exact hcalm pre e' hpre

/-- What identifies a reply that waits. -/
def Wait.key (w : Wait) : ℕ × IpAddr × List UInt8 := (w.place, w.src, w.msg)

/-- The requests of the replies that wait are in the log, and the static buffers have the
destination and the message of every reply that is intact. -/
structure Waiting (h : Host) : Prop where
  asked : ∀ w ∈ waits h.log, ∃ q, h.log[w.place]? = some q ∧ q.request? = some (w.src, w.msg)
  held : ∀ w ∈ waits h.log, w.intact = true →
    IpAddr.read h.rx 26 = w.src ∧ h.reply.slice 0 w.msg.length = echoReply w.msg

/-- What a program that polls the network does to a host: the same replies wait as before it, and no
reply is sent to their requests. -/
structure Later (h h' : Host) : Prop where
  waiting : Waiting h'
  keys : (waits h'.log).map Wait.key = (waits h.log).map Wait.key
  log : h.log <+: h'.log
  served : ∀ P, Calm h'.log → Open IsReply Fits P h.log → Open IsReply Fits P h'.log
  frames : h'.frames.length ≤ h.frames.length
  clock : h'.clock.length ≤ h.clock.length
  tick : h.tick ≤ h'.tick

lemma Calm.of_prefix {log' : List Event} (hcalm : Calm log') (hpre : log <+: log') : Calm log :=
  fun pre e he => hcalm pre e (he.trans hpre)

lemma Waiting.later (hw : Waiting h) : Later h h :=
  ⟨hw, rfl, List.prefix_rfl, fun _ _ hP => hP, le_rfl, le_rfl, le_rfl⟩

lemma Later.trans (h₁ : Later h h') (h₂ : Later h' h'') : Later h h'' :=
  ⟨h₂.waiting, h₂.keys.trans h₁.keys, h₁.log.trans h₂.log,
    fun P hcalm hP => h₂.served P hcalm (h₁.served P (hcalm.of_prefix h₂.log) hP),
    h₂.frames.trans h₁.frames, h₂.clock.trans h₁.clock, h₁.tick.trans h₂.tick⟩

/-- Nothing has happened on the network. -/
lemma Waiting.later_of_log_eq (hw : Waiting h) (hlog : h'.log = h.log) (hrx : h'.rx = h.rx)
    (hreply : h'.reply = h.reply) (hframes : h'.frames.length ≤ h.frames.length)
    (hclock : h'.clock.length ≤ h.clock.length) (htick : h.tick ≤ h'.tick) : Later h h' := by
  refine ⟨⟨?_, ?_⟩, by rw [hlog], by rw [hlog], fun P _ hP => ?_, hframes, hclock, htick⟩
  · rw [hlog]
    exact hw.asked
  · rw [hlog, hrx, hreply]
    exact hw.held
  · rw [hlog]
    exact hP

/-- Events do not move requests in the log. -/
lemma getElem?_concat_of_eq_some {i : ℕ} {q : Event} (hq : log[i]? = some q) :
    (log ++ [e])[i]? = some q := by
  rw [List.getElem?_append_left (List.getElem?_eq_some_iff.mp hq).1, hq]

lemma Waiting.record_sent (hw : Waiting h) (dst : MacAddr) (etype : ℕ) (payload : List UInt8) :
    Waiting (h.record (.sent dst etype payload)) := by
  have hlog : (h.record (.sent dst etype payload)).log = h.log ++ [.sent dst etype payload] := rfl
  constructor
  · rw [hlog, waits_sent]
    intro w hmem
    obtain ⟨q, hq, hrequest⟩ := hw.asked w hmem
    exact ⟨q, getElem?_concat_of_eq_some hq, hrequest⟩
  · rw [hlog, waits_sent]
    exact hw.held

lemma Waiting.record_done (hw : Waiting h) : Waiting (h.record .done) := by
  have hlog : (h.record .done).log = h.log ++ [.done] := rfl
  constructor
  · rw [hlog, waits_done]
    intro w hmem
    obtain ⟨q, hq, hrequest⟩ := hw.asked w (List.mem_of_mem_tail hmem)
    exact ⟨q, getElem?_concat_of_eq_some hq, hrequest⟩
  · rw [hlog, waits_done]
    exact fun w hmem => hw.held w (List.mem_of_mem_tail hmem)

/-- Something has been sent that is no echo reply. -/
lemma Waiting.later_sent (hw : Waiting h) {dst : MacAddr} {etype : ℕ} {payload : List UInt8}
    (hreply : ¬IsReply (.sent dst etype payload)) : Later h (h.record (.sent dst etype payload)) :=
  ⟨hw.record_sent dst etype payload, congrArg (List.map Wait.key) waits_sent,
    List.prefix_append _ _, fun _ _ hP => hP.append hreply, le_rfl, le_rfl, le_rfl⟩

/-! ## A frame comes in -/

/-- A message is written over another one with the same bytes. -/
lemma slice_blit_of_agree {b : Bytes} {l l' : List UInt8} (hb : b.slice 0 l'.length = l')
    (h : l.take l'.length = l'.take l.length) :
    (b.blit 0 (.ofList l) l.length).slice 0 l'.length = l' := by
  refine (Bytes.slice_congr fun i hi => ?_).trans hb
  rw [Nat.zero_add]
  rcases Nat.lt_or_ge i l.length with hlt | hge
  · have hold : some (b i) = l'[i]? := by
      have hget := congrArg (fun l => l[i]?) hb
      rwa [Bytes.getElem?_slice hi, Nat.zero_add] at hget
    have hnew : l[i]? = some (b i) := by
      rw [hold, ← List.getElem?_take_of_lt hi, h, List.getElem?_take_of_lt hlt]
    rw [Bytes.blit_start hlt, Bytes.ofList, List.getD_eq_getElem?_getD, hnew, Option.getD_some]
  · exact Bytes.blit_of_not_mem (.inr (by omega))

/-- The reply to a request is written into the buffer. -/
def overwrite (reply : Bytes) : Option (IpAddr × List UInt8) → Bytes
  | none => reply
  | some r => reply.blit 0 (.ofList (echoReply r.2)) (echoReply r.2).length

lemma mem_waits_received {log : List Event}
    (hmem : w ∈ waits (log ++ [.received mac ip frame len])) :
    (∃ r, request mac ip frame len = some r ∧ w = ⟨log.length, r.1, r.2, true⟩) ∨
      ∃ v ∈ waits log, w = v.touch frame (request mac ip frame len) := by
  rw [waits_concat] at hmem
  rcases List.mem_append.mp hmem with hnew | hold
  · obtain ⟨r, hr, rfl⟩ := Option.map_eq_some_iff.mp (Option.mem_toList.mp hnew)
    exact .inl ⟨r, hr, rfl⟩
  · obtain ⟨v, hv, rfl⟩ := List.mem_map.mp hold
    exact .inr ⟨v, hv, rfl⟩

/-- A frame has come in, and its reply is in the buffer if it is a request. -/
lemma Waiting.received (hw : Waiting h) (hlog : h'.log = h.log ++ [.received mac ip frame len])
    (hrx : h'.rx = frame) (hreply : h'.reply = overwrite h.reply (request mac ip frame len)) :
    Waiting h' := by
  constructor
  · intro w hmem
    rw [hlog] at hmem ⊢
    rcases mem_waits_received hmem with ⟨r, hr, rfl⟩ | ⟨v, hv, rfl⟩
    · exact ⟨_, List.getElem?_concat_length, hr⟩
    · obtain ⟨q, hq, hrequest⟩ := hw.asked v hv
      exact ⟨q, getElem?_concat_of_eq_some hq, hrequest⟩
  · intro w hmem hintact
    rw [hlog] at hmem
    rw [hrx, hreply]
    rcases mem_waits_received hmem with ⟨r, hr, rfl⟩ | ⟨v, hv, rfl⟩
    · rw [hr, overwrite, ← length_echoReply r.2]
      exact ⟨(request_spec hr).1.symm, Bytes.slice_blit_ofList _ _ _⟩
    · rw [Wait.touch, Bool.and_eq_true, Bool.and_eq_true, decide_eq_true_iff] at hintact
      obtain ⟨⟨hv', hsrc⟩, hall⟩ := hintact
      obtain ⟨-, hslice⟩ := hw.held v hv hv'
      refine ⟨hsrc, ?_⟩
      cases hr : request mac ip frame len with
      | none => exact hslice
      | some r =>
        rw [hr, Option.all_some, decide_eq_true_iff] at hall
        have hlen := length_echoReply v.msg
        change (overwrite h.reply (some r)).slice 0 v.msg.length = echoReply v.msg
        rw [← hlen] at hslice ⊢
        exact slice_blit_of_agree hslice (by rw [hlen, hall, length_echoReply])

/-! ## Sending -/

/-- A poll leaves the replies that wait as they are. -/
def Polls (n : ℕ) (poll : Program Host PUnit) : Prop :=
  ∀ h, Waiting h → h.frames.length < n → wp poll (fun _ h' => Later h h') h

section Sending

variable {n deadline : ℕ} {poll : Program Host PUnit} {α : Type}

lemma wp_ethSend (dst : MacAddr) (etype : ℕ) (payload : List UInt8) :
    wp (ethSend dst etype payload)
      (fun _ h' => h' = h ∨ h' = h.record (.sent dst etype payload)) h := by
  refine wp_ite_intro (fun _ => ?_) fun _ => ?_
  · rw [wp_pure]
    exact .inl rfl
  · rw [wp_modify]
    exact .inr rfl

lemma wp_ethSend_arp (hw : Waiting h) (dst : MacAddr) (payload : List UInt8) :
    wp (ethSend dst ethTypeArp payload) (fun _ h' => Later h h') h := by
  refine wp_mono (wp_ethSend dst ethTypeArp payload) ?_
  rintro _ h' (rfl | rfl)
  · exact hw.later
  · exact hw.later_sent (not_isReply_arp dst payload)

/-- The time that passes is read from the list, and much passes behind its end. -/
lemma wp_getTick (hw : Waiting h) : wp getTick (fun t h' => Later h h' ∧ t = h'.tick ∧
    (h.clock = [] → h.tick + 2 ^ 32 ≤ t) ∧ h'.clock.length = h.clock.length - 1) h := by
  rw [getTick, wp_bind, wp_modify, wp_bind, wp_get, wp_pure]
  refine ⟨hw.later_of_log_eq rfl rfl rfl le_rfl ?_ (Nat.le_add_right _ _), rfl, fun hnil => ?_, ?_⟩
  · rw [List.length_tail]
    exact Nat.sub_le _ _
  · rw [hnil]
    exact le_rfl
  · exact List.length_tail

/-- Before a deadline that is not far off there is time left in the list. -/
lemma wp_deadline {m m' : Program Host α} {Q : α → Host → Prop} (hw : Waiting h)
    (hle : deadline ≤ h.tick + 2 ^ 32)
    (hm : ∀ h', Later h h' → h'.clock.length < h.clock.length → wp m Q h')
    (hm' : ∀ h', Later h h' → wp m' Q h') :
    wp (getTick >>= fun now => if now < deadline then m else m') Q h := by
  rw [wp_bind]
  refine wp_mono (wp_getTick hw) ?_
  rintro now h' ⟨hlater, -, hend, hclock⟩
  refine wp_ite_intro (fun hlt => hm h' hlater ?_) fun _ => hm' h' hlater
  have hne : h.clock ≠ [] := fun hnil => absurd (hle.trans (hend hnil)) (not_le.mpr hlt)
  have hpos := List.length_pos_of_ne_nil hne
  omega

/-- A loop that waits until a deadline. -/
lemma wp_waitLoop {body : Program Host (PUnit ⊕ α)} {I : Host → Prop} (hw : Waiting h) (hI : I h)
    (hround : ∀ h', Later h h' → I h' → wp body (fun r h'' => Later h' h'' ∧ I h'' ∧
      (r.isLeft = true → h''.clock.length < h'.clock.length)) h') :
    wp (iter (fun _ => body) (h.clock.length + 1) PUnit.unit) (fun _ h' => Later h h') h := by
  refine wp_iter (fun _ h' => Later h h' ∧ I h') (fun _ h' => h'.clock.length) ?_ ⟨hw.later, hI⟩
    (Nat.lt_succ_self _)
  rintro ⟨⟩ h' ⟨hlater, hI'⟩
  refine wp_mono (hround h' hlater hI') ?_
  rintro (⟨⟩ | a) h'' ⟨hlater', hI'', hclock⟩
  · exact ⟨⟨hlater.trans hlater', hI''⟩, hclock rfl⟩
  · exact hlater.trans hlater'

/-- `arp_resolve` polls the network. -/
lemma wp_arpResolve (hpoll : Polls n poll) (hw : Waiting h) (hn : h.frames.length < n)
    (ip : AddrRef) :
    wp (arpResolve poll ip) (fun _ h' => Later h h') h := by
  rw [arpResolve, wp_bind, wp_get]
  split
  · rw [wp_pure]
    exact hw.later
  · rw [arpSendRequest, wp_bind, wp_bind, wp_get]
    refine wp_mono (wp_ethSend_arp hw _ _) ?_
    rintro ⟨⟩ h₁ h₁later
    rw [wp_bind]
    refine wp_mono (wp_getTick h₁later.waiting) ?_
    rintro now h₂ ⟨h₂later, rfl, -⟩
    rw [wp_bind, wp_get]
    have hbefore := h₁later.trans h₂later
    refine wp_mono (wp_waitLoop (I := fun _ => True) hbefore.waiting trivial
      fun h₃ h₃later _ => ?_) fun _ _ hafter => hbefore.trans hafter
    refine wp_deadline h₃later.waiting (by have := h₃later.tick; omega)
      (fun h₄ h₄later hclock => ?_)
      fun h₄ h₄later => ?_
    · rw [wp_bind]
      have hframes := h₄later.frames.trans (h₃later.frames.trans hbefore.frames)
      refine wp_mono (hpoll h₄ h₄later.waiting (hframes.trans_lt hn)) ?_
      rintro ⟨⟩ h₅ h₅later
      rw [wp_bind, wp_get]
      have hround := h₄later.trans h₅later
      split
      · rw [wp_pure]
        exact ⟨hround, trivial, fun hleft => by cases hleft⟩
      · rw [wp_pure]
        exact ⟨hround, trivial, fun _ => h₅later.clock.trans_lt hclock⟩
    · rw [wp_pure]
      exact ⟨h₄later, trivial, fun hleft => by cases hleft⟩

lemma wp_destination (hpoll : Polls n poll) (hw : Waiting h) (hn : h.frames.length < n)
    (dst : AddrRef) :
    wp (destination poll dst) (fun _ h' => Later h h') h := by
  rw [destination, wp_bind, wp_get]
  refine wp_ite_intro (fun _ => ?_) fun _ => wp_ite_intro (fun _ => ?_) fun _ => ?_
  · rw [wp_pure]
    exact hw.later
  · rw [wp_pure]
    exact hw.later
  · exact wp_arpResolve hpoll hw hn _

/-- The packet of `ip_send`, with what is in the buffers when it is sent. -/
def Host.packet (h : Host) (dst : AddrRef) (proto : UInt8) (payload : DataRef)
    (plen : UInt16) : List UInt8 :=
  ipHeader h.stack.ip (h.addr dst) proto plen ++ h.data plen.toNat payload

/-- `ip_send` polls the network, and then sends the packet or gives up. -/
lemma wp_ipSend (hpoll : Polls n poll) (hw : Waiting h) (hn : h.frames.length < n) (dst : AddrRef)
    (proto : UInt8) (payload : DataRef) (plen : UInt16) :
    wp (ipSend poll dst proto payload plen) (fun _ h'' => ∃ h', Later h h' ∧ (h'' = h' ∨
      ∃ mac, h'' = h'.record (.sent mac ethTypeIp (h'.packet dst proto payload plen)))) h := by
  refine wp_ite_intro (fun _ => ?_) fun _ => ?_
  · rw [wp_pure]
    exact ⟨h, hw.later, .inl rfl⟩
  · rw [wp_bind]
    refine wp_mono (wp_destination hpoll hw hn dst) ?_
    rintro (_ | mac) h' hlater
    · rw [wp_pure]
      exact ⟨h', hlater, .inl rfl⟩
    · rw [wp_bind, wp_get]
      refine wp_mono (wp_ethSend mac ethTypeIp _) ?_
      rintro _ h'' (rfl | rfl)
      · exact ⟨h'', hlater, .inl rfl⟩
      · exact ⟨h', hlater, .inr ⟨mac, rfl⟩⟩

/-- A packet with a payload of the caller that is no echo reply. -/
lemma wp_ipSend_own (hpoll : Polls n poll) (hw : Waiting h)
    (hn : h.frames.length < n) (dst : AddrRef)
    {proto : UInt8} {data : List UInt8} {plen : UInt16} (hdata : ¬(proto = 1 ∧ data[0]? = some 0)) :
    wp (ipSend poll dst proto (.own data) plen) (fun _ h' => Later h h') h := by
  refine wp_mono (wp_ipSend hpoll hw hn dst proto (.own data) plen) ?_
  rintro _ h'' ⟨h', hlater, rfl | ⟨mac, rfl⟩⟩
  · exact hlater
  · refine hlater.trans (hlater.waiting.later_sent fun hreply => hreply ?_)
    rw [Host.packet, reply?_ip, if_neg]
    rintro ⟨hproto, hzero⟩
    refine hdata ⟨hproto, ?_⟩
    rw [Host.data, List.getElem?_take] at hzero
    split_ifs at hzero
    exact hzero

/-- A reply that has been waiting is sent, or given up. -/
lemma open_of_ipSend {dst : MacAddr} (hmsg : w.msg.length ≤ 1480) (hmin : 8 ≤ w.msg.length)
    (hlater : Later h h') (hwaits : waits h.log = w :: ws)
    (hcalm : Calm (h'.log ++ [.sent dst ethTypeIp
      (h'.packet (.frame 26) 1 .reply (.ofNat w.msg.length))]))
    (hP : w.place ∉ P) (hopen : Open IsReply Fits (insert w.place P) h'.log) :
    Open IsReply Fits P
      (h'.log ++ [.sent dst ethTypeIp (h'.packet (.frame 26) 1 .reply (.ofNat w.msg.length))]) := by
  by_cases hreply : IsReply
    (.sent dst ethTypeIp (h'.packet (.frame 26) 1 .reply (.ofNat w.msg.length)))
  · have hkeys := hlater.keys
    rw [hwaits, List.map_cons] at hkeys
    obtain ⟨v, vs, hvs, hkey, -⟩ := List.map_eq_cons_iff.mp hkeys
    obtain ⟨hplace, hsrc, hvmsg⟩ : v.place = w.place ∧ v.src = w.src ∧ v.msg = w.msg := by
      simpa only [Wait.key, Prod.mk.injEq] using hkey
    have hmem : v ∈ waits h'.log := hvs ▸ List.mem_cons_self
    obtain ⟨q, hq, hrequest⟩ := hlater.waiting.asked v hmem
    have hintact := (calm_concat.mp hcalm).2 hreply v (by rw [hvs]; rfl)
    obtain ⟨hread, hslice⟩ := hlater.waiting.held v hmem hintact
    have hlen : (UInt16.ofNat w.msg.length).toNat = w.msg.length :=
      Nat.mod_eq_of_lt (hmsg.trans_lt (by decide))
    have hpacket : (Event.sent dst ethTypeIp
        (h'.packet (.frame 26) 1 .reply (.ofNat w.msg.length))).reply? =
        some (w.src, echoReply w.msg) := by
      rw [IsReply, Host.packet, reply?_ip] at hreply
      rw [Host.packet, reply?_ip, if_pos (of_not_not fun hc => hreply (if_neg hc)), Host.addr,
        Host.data, hlen, hread, hsrc, ← hvmsg, hslice]
    have hanswers : Answers (w.src, echoReply w.msg) (w.src, w.msg) :=
      answers_echoReply (r := (w.src, w.msg)) hmin hmsg
    rw [hplace] at hq
    rw [hsrc, hvmsg] at hrequest
    exact hopen.answer hP hq ⟨_, hpacket, _, hrequest, hanswers⟩
  · exact (hopen.mono (Set.subset_insert _ _)).append hreply

/-- What `ip_send` does to a host with a reply that waits: it is sent or given up. -/
structure Released (w : Wait) (h h' : Host) : Prop where
  waiting : Waiting h'
  keys : (waits h'.log).map Wait.key = (waits h.log).map Wait.key
  log : h.log <+: h'.log
  served : ∀ P, Calm h'.log → w.place ∉ P → Open IsReply Fits (insert w.place P) h.log →
    Open IsReply Fits P h'.log
  frames : h'.frames.length ≤ h.frames.length
  clock : h'.clock.length ≤ h.clock.length
  tick : h.tick ≤ h'.tick

lemma wp_ipSend_reply (hpoll : Polls n poll) (hw : Waiting h) (hn : h.frames.length < n)
    (hwaits : waits h.log = w :: ws) (hmin : 8 ≤ w.msg.length) (hmsg : w.msg.length ≤ 1480) :
    wp (ipSend poll (.frame 26) 1 .reply (.ofNat w.msg.length))
    (fun _ h' => Released w h h') h := by
  refine wp_mono (wp_ipSend hpoll hw hn (.frame 26) 1 .reply (.ofNat w.msg.length)) ?_
  rintro _ h'' ⟨h', hlater, rfl | ⟨dst, rfl⟩⟩
  · exact ⟨hlater.waiting, hlater.keys, hlater.log, fun P hcalm _ hopen =>
      (hlater.served _ hcalm hopen).mono (Set.subset_insert _ _), hlater.frames,
      hlater.clock, hlater.tick⟩
  · refine ⟨hlater.waiting.record_sent _ _ _,
      (congrArg (List.map Wait.key) waits_sent).trans hlater.keys,
      hlater.log.trans (List.prefix_append _ _), fun P hcalm hP hopen =>
        ?_, hlater.frames, hlater.clock,
      hlater.tick⟩
    have hbefore : Calm h'.log := hcalm.of_prefix (List.prefix_append _ _)
    exact open_of_ipSend hmsg hmin hlater hwaits hcalm hP (hlater.served _ hbefore hopen)

end Sending

/-! ## Polling -/

/-- Nothing comes in, or a frame does. -/
lemma wp_e1000Recv : wp e1000Recv (fun len h' => len = 0 ∧ h' = { h with frames := h.frames.tail } ∨
    h.frames.tail.length < h.frames.length ∧ ∃ rx, h' = { h with
      rx := rx, frames := h.frames.tail }.record (.received h.stack.mac h.stack.ip rx len)) h := by
  rw [e1000Recv, wp_bind, wp_get]
  refine wp_ite_intro (fun _ => ?_) fun hsome => ?_
  · rw [wp_bind, wp_modify, wp_pure]
    exact .inl ⟨rfl, rfl⟩
  · have hne : h.frames ≠ [] := by
      intro hnil
      rw [hnil] at hsome
      exact hsome List.take_nil
    rw [wp_bind, wp_modify, wp_pure]
    refine .inr ⟨?_, _, rfl⟩
    rw [List.length_tail]
    exact Nat.sub_lt (List.length_pos_of_ne_nil hne) Nat.one_pos

/-- The handlers leave the buffers as they are. -/
lemma wp_handle (len : ℕ) : wp (handle len) (fun sent h' =>
    Hands (request h.stack.mac h.stack.ip h.rx len) sent ∧ ∃ s, h' = { h with stack := s }) h := by
  rw [handle, wp_bind, wp_get, wp_bind, wp_zoom]
  refine wp_mono (wp_netPoll_hands rfl) fun _ s' hands => ?_
  rw [wp_bind, wp_get, wp_pure]
  exact ⟨hands, s', rfl⟩

lemma not_isReply_received : ¬IsReply (.received mac ip frame len) := fun hreply => hreply rfl

lemma not_isReply_done : ¬IsReply .done := fun hreply => hreply rfl

/-- A frame without a request has come in. -/
lemma Waiting.later_received (hw : Waiting h)
    (hlog : h'.log = h.log ++ [.received mac ip frame len])
    (hrx : h'.rx = frame) (hreply : h'.reply = h.reply)
    (hframes : h'.frames.length ≤ h.frames.length)
    (hclock : h'.clock = h.clock) (htick : h'.tick = h.tick)
    (hr : request mac ip frame len = none) :
    Later h h' := by
  refine ⟨hw.received hlog hrx (by rw [hr, hreply]; rfl), ?_, hlog ▸ List.prefix_append _ _,
    fun P _ hP => hlog ▸ hP.append not_isReply_received, hframes, hclock.symm ▸ le_rfl,
      htick.symm ▸ le_rfl⟩
  rw [hlog, waits_concat, await, hr]
  exact List.map_map

/-- A frame with a request has come in, and the reply to it is sent or given up. -/
lemma wp_send_reply {n : ℕ} {poll : Program Host PUnit} (hpoll : Polls n poll) (hw : Waiting h)
    (hlog : h'.log = h.log ++ [.received mac ip frame len]) (hrx : h'.rx = frame)
    (hreply : h'.reply = h.reply) (hframes : h'.frames.length ≤ h.frames.length)
    (hn : h'.frames.length < n) (hclock : h'.clock = h.clock) (htick : h'.tick = h.tick)
    (hr : request mac ip frame len = some r) :
    wp (send poll (.ip r.1 ipProtoIcmp (echoReply r.2))) (fun _ h'' => Later h h'') h' := by
  obtain ⟨-, hmin, hmax⟩ := request_spec hr
  rw [send, wp_bind, wp_modify, wp_bind]
  have hwaits : waits h'.log = ⟨h.log.length, r.1, r.2, true⟩ ::
      (waits h.log).map (Wait.touch frame (some r)) := by
    rw [hlog, waits_concat, await, hr]
    rfl
  have hbuffer : Waiting { h' with
      reply := h'.reply.blit 0 (.ofList (echoReply r.2)) (echoReply r.2).length } :=
    hw.received hlog hrx (by rw [hr, hreply]; rfl)
  have hsend := wp_ipSend_reply hpoll hbuffer hn hwaits hmin hmax
  rw [length_echoReply] at hbuffer hsend ⊢
  refine wp_mono hsend ?_
  rintro ⟨⟩ h₁ hreleased
  rw [wp_modify]
  have hpre : h.log <+: h'.log := hlog ▸ List.prefix_append _ _
  refine ⟨hreleased.waiting.record_done, ?_,
    hpre.trans (hreleased.log.trans (List.prefix_append _ _)),
    fun P hcalm hP => ?_, hreleased.frames.trans hframes, hreleased.clock.trans (hclock ▸ le_rfl),
    (htick ▸ le_rfl : h.tick ≤ h'.tick).trans hreleased.tick⟩
  · have hkeys := hreleased.keys
    rw [hwaits] at hkeys
    change (waits (h₁.log ++ [.done])).map Wait.key = _
    rw [waits_done, List.map_tail, hkeys, List.map_cons, List.tail_cons, List.map_map]
    rfl
  · have hask : Open IsReply Fits (insert h.log.length P) h'.log :=
      hlog ▸ hP.ask not_isReply_received
    have hopen := hreleased.served P (hcalm.of_prefix (List.prefix_append _ _))
      (fun hmem => (hP.1 _ hmem).ne rfl) hask
    exact hopen.append not_isReply_done

/-- Without a request no reply is sent. -/
lemma wp_forM_none {poll : Program Host PUnit} {sent : List Sent} (hw : Waiting h)
    (hands : Hands none sent) :
    wp (forM sent (send poll)) (fun _ h' => Later h h') h := by
  rcases hands with rfl | ⟨dst, payload, rfl⟩
  · rw [List.forM_nil, wp_pure]
    exact hw.later
  · rw [List.forM_cons, wp_bind]
    refine wp_mono (wp_ethSend_arp hw dst payload) fun _ h' hlater => ?_
    rwa [List.forM_nil, wp_pure]

/-- `net_poll` leaves the replies that wait as they are. -/
lemma polls_poll (n : ℕ) : Polls n (poll n) := by
  induction n with
  | zero => exact fun _ _ hn => absurd hn (Nat.not_lt_zero _)
  | succ n ih =>
    intro h hw hn
    rw [poll, wp_bind]
    refine wp_mono wp_e1000Recv ?_
    rintro len h₁ hrecv
    rw [wp_bind]
    refine wp_mono (wp_handle len) ?_
    rintro sent h₂ ⟨hands, s, rfl⟩
    have htail : h.frames.tail.length ≤ h.frames.length := by
      rw [List.length_tail]
      exact Nat.sub_le _ _
    rcases hrecv with ⟨rfl, rfl⟩ | ⟨hless, rx, rfl⟩
    · have hnone : request h.stack.mac h.stack.ip h.rx 0 = none := if_neg fun hc => by omega
      have hlater : Later h { h with frames := h.frames.tail, stack := s } :=
        hw.later_of_log_eq rfl rfl rfl htail le_rfl le_rfl
      change Hands (request h.stack.mac h.stack.ip h.rx 0) sent at hands
      rw [hnone] at hands
      exact wp_mono (wp_forM_none hlater.waiting hands) fun _ _ hafter => hlater.trans hafter
    · change Hands (request h.stack.mac h.stack.ip rx len) sent at hands
      cases hr : request h.stack.mac h.stack.ip rx len with
      | none =>
        rw [hr] at hands
        have hlater : Later h { h with
            rx := rx, frames := h.frames.tail, stack := s,
            log := h.log ++ [.received h.stack.mac h.stack.ip rx len] } :=
          hw.later_received rfl rfl rfl htail rfl rfl hr
        exact wp_mono (wp_forM_none hlater.waiting hands) fun _ _ hafter => hlater.trans hafter
      | some r =>
        rw [hr] at hands
        obtain rfl : sent = [.ip r.1 ipProtoIcmp (echoReply r.2)] := hands
        rw [List.forM_cons, wp_bind]
        have hn' : h.frames.tail.length < n := by omega
        refine wp_mono (wp_send_reply ih hw rfl rfl rfl htail hn' rfl rfl hr) fun _ h' hafter => ?_
        rwa [List.forM_nil, wp_pure]

/-- `net_poll` has enough depth for the frames that the card has. -/
lemma polls_netPollHost (n : ℕ) : Polls n netPollHost := by
  intro h hw _
  obtain ⟨a, h', hrun, hlater⟩ := polls_poll (h.frames.length + 1) h hw (Nat.lt_succ_self _)
  exact ⟨a, h', hrun, hlater⟩

/-! ## Runs -/

/-- The payload of a ping is no reply. -/
lemma getElem?_zero_echoRequest (seq : UInt16) : (echoRequest seq)[0]? = some 8 := rfl

lemma wp_pingRound (hw : Waiting h) {t0 deadline : ℕ} (hle : deadline ≤ h.tick + 2 ^ 32) :
    wp (pingRound t0 deadline) (fun r h' => Later h h' ∧ True ∧
      (r.isLeft = true → h'.clock.length < h.clock.length)) h := by
  refine wp_deadline hw hle (fun h₁ h₁later hclock => ?_) fun h₁ h₁later => ?_
  · rw [wp_bind]
    refine wp_mono (polls_netPollHost (h₁.frames.length + 1) h₁ h₁later.waiting
      (Nat.lt_succ_self _)) ?_
    rintro ⟨⟩ h₂ h₂later
    have hafter := h₁later.trans h₂later
    rw [wp_bind, wp_get]
    refine wp_ite_intro (fun _ => ?_) fun _ => ?_
    · rw [wp_bind, wp_modify, wp_bind]
      have hstop : Later h { h₂ with stack := { h₂.stack with pingWaiting := false } } :=
        hafter.trans (hafter.waiting.later_of_log_eq rfl rfl rfl le_rfl le_rfl le_rfl)
      refine wp_mono (wp_getTick hstop.waiting) ?_
      rintro now h₃ ⟨h₃later, -⟩
      rw [wp_pure]
      exact ⟨hstop.trans h₃later, trivial, fun hleft => by cases hleft⟩
    · rw [wp_pure]
      exact ⟨hafter, trivial, fun _ => h₂later.clock.trans_lt hclock⟩
  · rw [wp_bind, wp_modify, wp_pure]
    exact ⟨h₁later.trans (h₁later.waiting.later_of_log_eq rfl rfl rfl le_rfl le_rfl le_rfl),
      trivial, fun hleft => by cases hleft⟩

/-- `icmp_ping` polls the network. -/
lemma wp_icmpPing (hw : Waiting h) (dst : IpAddr) (timeout : UInt32) :
    wp (icmpPing dst timeout) (fun _ h' => Later h h') h := by
  rw [icmpPing, wp_bind, wp_modify, wp_bind]
  have hstart : Later h { h with stack := { h.stack with
      pingSeq := (h.stack.pingSeq + 1) % 65536, pingGot := false, pingWaiting := true } } :=
    hw.later_of_log_eq rfl rfl rfl le_rfl le_rfl le_rfl
  refine wp_mono (wp_getTick hstart.waiting) ?_
  rintro t0 h₁ ⟨h₁later, rfl, -⟩
  rw [wp_bind, wp_get, wp_bind]
  refine wp_mono (wp_ipSend_own (polls_netPollHost (h₁.frames.length + 1)) h₁later.waiting
    (Nat.lt_succ_self _)
    (.own dst) fun hdata => ?_) ?_
  · rw [getElem?_zero_echoRequest] at hdata
    exact absurd hdata.2 (by decide)
  rintro ⟨⟩ h₂ h₂later
  rw [wp_bind, wp_get]
  have hbefore := hstart.trans (h₁later.trans h₂later)
  have htimeout := timeout.toNat_lt
  refine wp_mono (wp_waitLoop (I := fun _ => True) hbefore.waiting trivial
    fun h₃ h₃later _ => wp_pingRound h₃later.waiting ?_) fun _ _ hafter => hbefore.trans hafter
  have hticks := h₂later.tick.trans h₃later.tick
  omega

/-- `udp_send` sends no reply. -/
lemma wp_udpSend (hw : Waiting h) (dst : IpAddr) (srcPort dstPort : UInt16) (data : List UInt8) :
    wp (udpSend dst srcPort dstPort data) (fun _ h' => Later h h') h := by
  refine wp_ite_intro (fun _ => ?_) fun _ => ?_
  · rw [wp_pure]
    exact hw.later
  · exact wp_ipSend_own (polls_netPollHost (h.frames.length + 1)) hw (Nat.lt_succ_self _) (.own dst)
      fun hdata => absurd hdata.1 (by decide)

lemma wp_op (hw : Waiting h) (op : Op) : wp op.run (fun _ h' => Later h h') h := by
  cases op with
  | poll => exact polls_netPollHost (h.frames.length + 1) h hw (Nat.lt_succ_self _)
  | ping dst timeout =>
    rw [Op.run, wp_bind]
    refine wp_mono (wp_icmpPing hw dst timeout) fun _ h' hlater => ?_
    rwa [wp_pure]
  | udp dst srcPort dstPort data => exact wp_udpSend hw dst srcPort dstPort data
  | lease ip mask gw =>
    rw [Op.run, wp_modify]
    exact hw.later_of_log_eq rfl rfl rfl le_rfl le_rfl le_rfl

lemma wp_runOps (hw : Waiting h) (ops : List Op) : wp (runOps ops) (fun _ h' => Later h h') h := by
  induction ops generalizing h with
  | nil =>
    rw [runOps, wp_pure]
    exact hw.later
  | cons op ops ih =>
    rw [runOps, wp_bind]
    refine wp_mono (wp_op hw op) fun _ h₁ h₁later => ?_
    exact wp_mono (ih h₁later.waiting) fun _ h₂ h₂later => h₁later.trans h₂later

/-- Whatever a host is asked to do and whatever comes in, also while a reply waits for the hardware
address of its next hop, every echo reply answers a request of its own, if none is sent after a
frame that changed its destination or its message. -/
theorem runOps_answered (ops : List Op) (h : Host) (hlog : h.log = []) :
    wp (runOps ops) (fun _ h' => Calm h'.log → Answered IsReply Fits h'.log) h := by
  have hw : Waiting h := by
    constructor
    · intro w hmem
      rw [hlog] at hmem
      exact absurd hmem List.not_mem_nil
    · intro w hmem
      rw [hlog] at hmem
      exact absurd hmem List.not_mem_nil
  refine wp_mono (wp_runOps hw ops) fun _ h' hlater hcalm => ?_
  exact (hlater.served ∅ hcalm (hlog ▸ open_nil)).answered

/-! ## A request from another network -/

/-- An echo request from 8.8.8.8 to 10.0.0.2. -/
def sampleRequest : List UInt8 :=
  [2, 0, 0, 0, 0, 1, 0x52, 0x54, 0, 0x12, 0x34, 0x56, 0x08, 0x00,
    0x45, 0, 0, 28, 0, 0, 0, 0, 64, 1, 0x60, 0xC3, 8, 8, 8, 8, 10, 0, 0, 2,
    8, 0, 0xF7, 0xFD, 0, 1, 0, 1]

/-- The ARP reply of the gateway 10.0.0.1. -/
def sampleArpReply : List UInt8 :=
  [2, 0, 0, 0, 0, 1, 0x52, 0x54, 0, 0x12, 0x34, 0x56, 0x08, 0x06,
    0, 1, 8, 0, 6, 4, 0, 2, 0x52, 0x54, 0, 0x12, 0x34, 0x56, 10, 0, 0, 1, 2, 0, 0, 0,
      0, 1, 10, 0, 0, 2]

/-- The host 10.0.0.2, with the hardware addresses that it knows. -/
def sampleHost (arp : ArpCache) : Host where
  stack := ⟨⟨2, 0, 0, 0, 0, 1⟩, ⟨10, 0, 0, 2⟩, arp, false, false, 0, fun _ => ⟨0, 0, false⟩, [], []⟩
  mask := ⟨255, 255, 255, 0⟩
  gw := ⟨10, 0, 0, 1⟩
  rx := fun _ => 0
  reply := fun _ => 0
  tick := 0
  clock := [0, 1, 1]
  frames := [sampleRequest, sampleArpReply]
  log := []

/-- No reply of the record goes out after a frame that changed it. -/
def isCalm (log : List Event) : Bool :=
  (List.range log.length).all fun n => log[n]?.all fun e =>
    e.reply?.isNone || (waits (log.take n)).head?.all Wait.intact

lemma calm_of_isCalm (h : isCalm log = true) : Calm log := by
  rintro pre e ⟨post, rfl⟩ hreply w hw
  have hn : pre.length ∈ List.range (pre ++ [e] ++ post).length := by simp
  have hat : (pre ++ [e] ++ post)[pre.length]? = some e := by simp
  have htake : (pre ++ [e] ++ post).take pre.length = pre := by simp
  have hcheck := List.all_eq_true.mp h pre.length hn
  rw [hat, htake, Option.all_some, Bool.or_eq_true] at hcheck
  refine hcheck.elim (fun hnone => absurd (Option.isNone_iff_eq_none.mp hnone) hreply) fun hall =>
    ?_
  rw [Option.mem_def.mp hw, Option.all_some] at hall
  exact hall

/-- The gateway is known already, and the reply is sent at once. -/
theorem runOps_answered_known : ∃ h', runOps [.poll]
    (sampleHost (ArpCache.boot.arpInsert ⟨10, 0, 0, 1⟩ ⟨0x52, 0x54, 0, 0x12, 0x34, 0x56⟩)) =
      some (PUnit.unit, h') ∧
    Calm h'.log ∧ (∃ e ∈ h'.log, IsReply e) ∧ Answered IsReply Fits h'.log := by
  obtain ⟨h', hrun, hcheck⟩ := exists_of_any (m := runOps [.poll])
    (s := sampleHost (ArpCache.boot.arpInsert ⟨10, 0, 0, 1⟩ ⟨0x52, 0x54, 0, 0x12, 0x34, 0x56⟩))
    (p := fun h' : Host => isCalm h'.log && h'.log.any fun e => e.reply?.isSome) (by decide +kernel)
  obtain ⟨hcalm, hsent⟩ := Bool.and_eq_true_iff.mp hcheck
  obtain ⟨e, he, hreply⟩ := List.any_eq_true.mp hsent
  exact ⟨h', hrun, calm_of_isCalm hcalm, ⟨e, he, Option.isSome_iff_ne_none.mp hreply⟩,
    wlp_of_wp (runOps_answered [.poll] _ rfl) _ _ hrun (calm_of_isCalm hcalm)⟩

/-- Some address of a reply is not the source of a request. -/
def misdirected (log : List Event) : Bool :=
  log.any fun e => e.reply?.any fun r => log.all fun q => q.request?.all fun r' => r.1 ≠ r'.1

lemma not_answered_of_misdirected (h : misdirected log = true) : ¬Answered IsReply Fits log := by
  rintro ⟨f, hf⟩
  obtain ⟨a, hmem, ha⟩ := List.any_eq_true.mp h
  obtain ⟨r, hr, hall⟩ := (Option.any_eq_true _ _).mp ha
  obtain ⟨i, hi⟩ := List.mem_iff_getElem?.mp hmem
  obtain ⟨-, q, hq, r₁, hr₁, r₂, hr₂, hanswers⟩ := hf.earlier i a hi fun hnone => by
    rw [hnone] at hr
    cases hr
  obtain rfl : r = r₁ := Option.some.inj (hr.symm.trans hr₁)
  have hrequest := List.all_eq_true.mp hall q (List.mem_of_getElem? hq)
  rw [Option.mem_def.mp hr₂, Option.all_some, decide_eq_true_iff] at hrequest
  exact hrequest hanswers.dst

/-- The ARP reply of the gateway is written over the source address of the request, and the echo
reply goes to the address 52.86.10.0, which is made up of bytes of the ARP reply. -/
theorem not_answered_of_arpReply : (sampleHost .boot).log = [] ∧
    wp (runOps [.poll]) (fun _ h' => ¬Answered IsReply Fits h'.log) (sampleHost .boot) := by
  refine ⟨rfl, ?_⟩
  have hmis : (runOps [.poll] (sampleHost .boot)).any (fun r => misdirected r.2.log) = true := by
    decide +kernel
  obtain ⟨h', hrun, hmis'⟩ := exists_of_any (p := fun h' : Host => misdirected h'.log) hmis
  exact wp_of_eq hrun (not_answered_of_misdirected hmis')

end Net

end CoolFrost

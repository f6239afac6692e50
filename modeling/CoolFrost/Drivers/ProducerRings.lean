import CoolFrost.Drivers.ControlXfer

/-!
# Producer rings

`ring_init` and `ring_enqueue` on the rings that the drivers make: the command ring and the transfer
rings of the endpoints 0 (`drivers/xhci.c`), and those of the interrupt endpoints
(`drivers/usbhid.c`), which are shorter.  `ring_enqueue` does not know the size that a ring was
initialised with.
-/

namespace CoolFrost

namespace Xhci

/-- `HID_RING_SZ`. -/
def hidRingSize : ℕ := 16

/-- What the drivers make a producer ring for. -/
inductive RingUse
  | command
  | ep0
  | hid
  deriving DecidableEq

/-- The size that the ring is made with. -/
def RingUse.size : RingUse → ℕ
  | command => ringSize
  | ep0 => ringSize
  | hid => hidRingSize

/-- `ring_init`, on a memory that begins with the ring. -/
def ringInitSize (sz : ℕ) (addr : UInt64) (mem : ℕ → XhciTrb) : ℕ → XhciTrb := fun i =>
  if i = sz - 1 then ⟨addr, 0, trbType typeLink ||| trbTc⟩
  else if i < sz then ⟨0, 0, 0⟩
  else mem i

/-- A ring as its maker leaves it. -/
def freshRing (sz : ℕ) (addr : UInt64) (mem : ℕ → XhciTrb) : XferRing :=
  { ringInit addr with ring := ringInitSize sz addr mem }

/-- A TRB as it is handed to `ring_enqueue`, without a cycle bit. -/
abbrev Request := { t : XhciTrb // t.ctrl &&& trbC = 0 }

/-- `ring_enqueue` of one TRB after the other. -/
def enqueueAll (x : XferRing) (ts : List Request) : XferRing :=
  ts.foldl (fun x t => ringEnqueue x t.1.param t.1.status t.1.ctrl) x

/-- What `ring_enqueue` stores, and where. -/
def ringStores (x : XferRing) (t : Request) : List (ℕ × XhciTrb) :=
  if ringSize - 1 ≤ x.enq then []
  else
    let trb : XhciTrb := { t.1 with ctrl := t.1.ctrl ||| cycleBit x.cs }
    let link := { x.ring (x.enq + 1) with ctrl := trbType typeLink ||| trbTc ||| cycleBit x.cs }
    (x.enq, trb) :: if x.enq + 1 = ringSize - 1 then [(x.enq + 1, link)] else []

/-- The ring after its stores. -/
lemma ringEnqueue_ring (x : XferRing) (t : Request) :
    (ringEnqueue x t.1.param t.1.status t.1.ctrl).ring =
      (ringStores x t).foldl (fun ring w => Function.update ring w.1 w.2) x.ring := by
  unfold ringEnqueue ringStores
  by_cases hfull : ringSize - 1 ≤ x.enq
  · rw [if_pos hfull, if_pos hfull]
    rfl
  · rw [if_neg hfull, if_neg hfull]
    by_cases hwrap : x.enq + 1 = ringSize - 1
    · simp only [if_pos hwrap, List.foldl_cons, List.foldl_nil,
        Function.update_of_ne (Nat.succ_ne_self x.enq)]
    · simp only [if_neg hwrap, List.foldl_cons, List.foldl_nil]

/-- The cycle bit of the lap that the `k`-th TRB is in: set on the laps with an even number. -/
def lapCycle (sz k : ℕ) : Bool := k / (sz - 1) % 2 = 0

/-- What the `k`-th call is to store on a ring of the size `sz`: the TRB, with the cycle bit of its
lap, below the last entry, and after the last TRB of the lap also the link there. -/
def StoresLap (sz : ℕ) (addr : UInt64) (k : ℕ) (t : Request) (ws : List (ℕ × XhciTrb)) : Prop :=
  ∃ trb : XhciTrb, trb.param = t.1.param ∧ trb.status = t.1.status ∧
    trb.ctrl = t.1.ctrl ||| cycleBit (lapCycle sz k) ∧ cycle trb = lapCycle sz k ∧
    ws = (k % (sz - 1), trb) ::
      if k % (sz - 1) = sz - 2 then
        [(sz - 1, ⟨addr, 0, trbType typeLink ||| trbTc ||| cycleBit (lapCycle sz k)⟩)]
      else []

/-- Every call stores what it is to store. -/
def KeepsLaps (sz : ℕ) (addr : UInt64) (mem : ℕ → XhciTrb) (ts : List Request) : Prop :=
  ∀ k t, ts[k]? = some t →
    StoresLap sz addr k t (ringStores (enqueueAll (freshRing sz addr mem) (ts.take k)) t)

/-! ## Runs -/

/-- Where the producer stands after `k` calls. -/
structure AtLap (sz : ℕ) (addr : UInt64) (k : ℕ) (x : XferRing) : Prop where
  enq : x.enq = k % (sz - 1)
  cs : x.cs = lapCycle sz k
  link_param : (x.ring (sz - 1)).param = addr
  link_status : (x.ring (sz - 1)).status = 0

variable {sz k : ℕ} {addr : UInt64} {mem : ℕ → XhciTrb} {x : XferRing} {t : Request}

lemma atLap_fresh : AtLap sz addr 0 (freshRing sz addr mem) where
  enq := (Nat.zero_mod _).symm
  cs := by
    rw [lapCycle, Nat.zero_div]
    rfl
  link_param := by
    change (ringInitSize sz addr mem (sz - 1)).param = addr
    rw [ringInitSize, if_pos rfl]
  link_status := by
    change (ringInitSize sz addr mem (sz - 1)).status = 0
    rw [ringInitSize, if_pos rfl]

/-- The next TRB of a lap, and the first one of the next lap. -/
lemma next_lap (hsz : 2 ≤ sz) (k : ℕ) :
    (k % (sz - 1) = sz - 2 ∧ (k + 1) % (sz - 1) = 0 ∧ lapCycle sz (k + 1) = !lapCycle sz k) ∨
      (k % (sz - 1) ≠ sz - 2 ∧ (k + 1) % (sz - 1) = k % (sz - 1) + 1 ∧
        lapCycle sz (k + 1) = lapCycle sz k) := by
  have hlt : k % (sz - 1) < sz - 1 := Nat.mod_lt _ (by omega)
  have hnext : k + 1 = (sz - 1) * (k / (sz - 1)) + (k % (sz - 1) + 1) := by
    rw [← Nat.add_assoc, Nat.div_add_mod]
  by_cases hlast : k % (sz - 1) = sz - 2
  · have hfull : k % (sz - 1) + 1 = sz - 1 := by omega
    rw [hfull, ← Nat.mul_succ] at hnext
    have hdiv : (k + 1) / (sz - 1) = k / (sz - 1) + 1 := by
      rw [hnext, Nat.mul_div_cancel_left _ (by omega)]
    have hparity : (k / (sz - 1) + 1) % 2 = 0 ↔ ¬k / (sz - 1) % 2 = 0 := by omega
    refine Or.inl ⟨hlast, by rw [hnext, Nat.mul_mod_right], ?_⟩
    rw [lapCycle, lapCycle, hdiv, decide_eq_decide.mpr hparity, decide_not]
  · have hroom : k % (sz - 1) + 1 < sz - 1 := by omega
    have hdiv : (k + 1) / (sz - 1) = k / (sz - 1) := by
      rw [hnext, Nat.mul_add_div (by omega), Nat.div_eq_of_lt hroom, Nat.add_zero]
    refine Or.inr ⟨hlast, ?_, by rw [lapCycle, lapCycle, hdiv]⟩
    rw [hnext, Nat.mul_add_mod, Nat.mod_eq_of_lt hroom]

/-- A call that does not reach the link. -/
lemma ringStores_of_lt (hlt : x.enq + 1 < ringSize - 1) :
    ringStores x t = [(x.enq, ⟨t.1.param, t.1.status, t.1.ctrl ||| cycleBit x.cs⟩)] ∧
      (ringEnqueue x t.1.param t.1.status t.1.ctrl).enq = x.enq + 1 ∧
      (ringEnqueue x t.1.param t.1.status t.1.ctrl).cs = x.cs := by
  unfold ringStores ringEnqueue
  rw [if_neg (by omega), if_neg (by omega), if_neg (by omega)]
  dsimp only
  rw [if_neg (by omega)]
  exact ⟨rfl, rfl, rfl⟩

/-- A call that reaches the link. -/
lemma ringStores_of_eq (hwrap : x.enq + 1 = ringSize - 1) :
    ringStores x t = [(x.enq, ⟨t.1.param, t.1.status, t.1.ctrl ||| cycleBit x.cs⟩),
        (x.enq + 1, ⟨(x.ring (x.enq + 1)).param, (x.ring (x.enq + 1)).status,
          trbType typeLink ||| trbTc ||| cycleBit x.cs⟩)] ∧
      (ringEnqueue x t.1.param t.1.status t.1.ctrl).enq = 0 ∧
      (ringEnqueue x t.1.param t.1.status t.1.ctrl).cs = !x.cs := by
  unfold ringStores ringEnqueue
  rw [if_neg (by omega), if_neg (by omega)]
  dsimp only
  rw [if_pos hwrap, if_pos hwrap]
  exact ⟨rfl, rfl, rfl⟩

/-- One call, on a ring that wraps where `ring_enqueue` takes it to, or before the end of the first
lap. -/
lemma AtLap.step (h : AtLap sz addr k x) (hsz : 2 ≤ sz) (hle : sz ≤ ringSize)
    (hk : sz = ringSize ∨ k < sz - 2) (t : Request) :
    StoresLap sz addr k t (ringStores x t) ∧
      AtLap sz addr (k + 1) (ringEnqueue x t.1.param t.1.status t.1.ctrl) := by
  have hlt : k % (sz - 1) < sz - 1 := Nat.mod_lt _ (by omega)
  have henq := h.enq
  obtain ⟨trb, hdef⟩ : ∃ trb : XhciTrb,
      trb = ⟨t.1.param, t.1.status, t.1.ctrl ||| cycleBit (lapCycle sz k)⟩ := ⟨_, rfl⟩
  have hfields : trb.param = t.1.param ∧ trb.status = t.1.status ∧
      trb.ctrl = t.1.ctrl ||| cycleBit (lapCycle sz k) := by
    rw [hdef]
    exact ⟨rfl, rfl, rfl⟩
  have hcycle : cycle trb = lapCycle sz k := by
    rw [hdef]
    exact cycle_mk _ _ _ _ t.2
  obtain ⟨hlast, hmod, hlap⟩ | ⟨hlast, hmod, hlap⟩ := next_lap hsz k
  · have hsize : sz = ringSize := hk.resolve_right fun hk => by
      rw [Nat.mod_eq_of_lt (by omega)] at hlast
      omega
    have hend : x.enq + 1 = sz - 1 := by omega
    obtain ⟨hstores, henq', hcs⟩ := ringStores_of_eq (t := t) (hsize ▸ hend)
    have hring := ringEnqueue_ring x t
    rw [hstores, List.foldl_cons, List.foldl_cons, List.foldl_nil, hend] at hring
    refine ⟨⟨trb, hfields.1, hfields.2.1, hfields.2.2, hcycle, ?_⟩, ?_⟩
    · rw [if_pos hlast, hstores, h.cs, ← hdef, hend, h.link_param, h.link_status, h.enq]
    · refine ⟨henq'.trans hmod.symm, ?_, ?_, ?_⟩
      · rw [hcs, h.cs, hlap]
      · rw [hring, Function.update_self]
        exact h.link_param
      · rw [hring, Function.update_self]
        exact h.link_status
  · obtain ⟨hstores, henq', hcs⟩ := ringStores_of_lt (x := x) (t := t) (by omega)
    have hring := ringEnqueue_ring x t
    have hother : sz - 1 ≠ x.enq := by omega
    rw [hstores, List.foldl_cons, List.foldl_nil] at hring
    refine ⟨⟨trb, hfields.1, hfields.2.1, hfields.2.2, hcycle, ?_⟩, ?_⟩
    · rw [if_neg hlast, hstores, h.cs, ← hdef, h.enq]
    · refine ⟨?_, ?_, ?_, ?_⟩
      · rw [henq', hmod, h.enq]
      · rw [hcs, h.cs, hlap]
      · rw [hring, Function.update_of_ne hother]
        exact h.link_param
      · rw [hring, Function.update_of_ne hother]
        exact h.link_status

/-- The producer after the first `k` TRBs. -/
lemma atLap_enqueueAll (hsz : 2 ≤ sz) (hle : sz ≤ ringSize) (ts : List Request) :
    ∀ k ≤ ts.length, sz = ringSize ∨ k ≤ sz - 2 →
      AtLap sz addr k (enqueueAll (freshRing sz addr mem) (ts.take k)) := by
  intro k
  induction k with
  | zero => exact fun _ _ => atLap_fresh
  | succ k ih =>
    intro hk hlap
    have hbefore := ih (by omega) (by omega)
    have hstep := (hbefore.step hsz hle (by omega) ts[k]).2
    rw [List.take_succ_eq_append_getElem hk, enqueueAll, List.foldl_append]
    exact hstep

/-- The sizes that the drivers use. -/
lemma RingUse.size_eq (u : RingUse) : u.size = ringSize ∨ u.size = hidRingSize := by
  cases u
  · exact Or.inl rfl
  · exact Or.inl rfl
  · exact Or.inr rfl

/-- On a ring of an interrupt endpoint, the TRB that ends the first lap is stored without the
link. -/
lemma not_keepsLaps_of_le {ts : List Request} (hlen : hidRingSize - 1 ≤ ts.length) :
    ¬KeepsLaps hidRingSize addr mem ts := by
  intro hkeeps
  have hget : 14 < ts.length := hlen
  have hbefore : AtLap hidRingSize addr 14
      (enqueueAll (freshRing hidRingSize addr mem) (ts.take 14)) :=
    atLap_enqueueAll (by decide) (by decide) ts 14 hget.le (Or.inr (by decide))
  have hlt : (enqueueAll (freshRing hidRingSize addr mem) (ts.take 14)).enq + 1 < ringSize - 1 := by
    rw [hbefore.enq]
    decide
  obtain ⟨trb, -, -, -, -, hws⟩ := hkeeps 14 ts[14] (List.getElem?_eq_getElem hget)
  have hlast : 14 % (hidRingSize - 1) = hidRingSize - 2 := by decide
  rw [(ringStores_of_lt hlt).1, if_pos hlast] at hws
  exact absurd (congrArg List.length hws) (show 1 ≠ 2 by decide)

/-- A ring that a driver makes keeps its laps exactly if it has the size that `ring_enqueue` takes
it to have, or the TRBs do not fill the first lap. -/
theorem keepsLaps_iff (u : RingUse) (addr : UInt64) (mem : ℕ → XhciTrb) (ts : List Request) :
    KeepsLaps u.size addr mem ts ↔ u.size = ringSize ∨ ts.length < hidRingSize - 1 := by
  have hsz : 2 ≤ u.size ∧ u.size ≤ ringSize := by cases u <;> decide
  constructor
  · intro hkeeps
    refine or_iff_not_imp_left.mpr fun hsize => Nat.not_le.mp fun hlen => ?_
    rw [u.size_eq.resolve_left hsize] at hkeeps
    exact not_keepsLaps_of_le hlen hkeeps
  · intro hcond k t ht
    obtain ⟨hk, rfl⟩ := List.getElem?_eq_some_iff.mp ht
    have hlap : u.size = ringSize ∨ k < u.size - 2 := by
      rcases u.size_eq with hsize | hsize
      · exact Or.inl hsize
      · refine hcond.imp_right fun hlen => ?_
        rw [hsize]
        omega
    exact ((atLap_enqueueAll hsz.1 hsz.2 ts k (by omega) (by omega)).step hsz.1 hsz.2 hlap _).1

/-- Fifteen TRBs on a ring of an interrupt endpoint. -/
theorem not_keepsLaps_hid :
    ¬KeepsLaps RingUse.hid.size 0 (fun _ => ⟨0, 0, 0⟩)
      (List.replicate 15 ⟨⟨0, 8, trbType 1 ||| trbIoc⟩, by decide⟩) :=
  not_keepsLaps_of_le (by rw [List.length_replicate]; decide)

end Xhci

end CoolFrost

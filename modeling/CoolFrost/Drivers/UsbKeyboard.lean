import CoolFrost.Drivers.Keyboard

/-!
# USB keyboards

`process_kbd_report` (`drivers/usbhid.c`) turns the boot reports of a keyboard into scancodes: a key
goes down in the first report that has it and up in the first one that has it no more.  Of the keys
that a report has anew only the first one is injected, and a key is released once for each place
that it had.
-/

namespace CoolFrost

namespace UsbKeyboard

open Keyboard

/-- `hid_to_ps2`, up to its last entry that is not zero. -/
def hidToPs2Table : List UInt8 :=
  [0, 0, 0, 0, 0x1E, 0x30, 0x2E, 0x20, 0x12, 0x21, 0x22, 0x23, 0x17, 0x24, 0x25, 0x26,
    0x32, 0x31, 0x18, 0x19, 0x10, 0x13, 0x1F, 0x14, 0x16, 0x2F, 0x11, 0x2D, 0x15, 0x2C, 0x02, 0x03,
    0x04, 0x05, 0x06, 0x07, 0x08, 0x09, 0x0A, 0x0B, 0x1C, 0x01, 0x0E, 0x0F, 0x39, 0x0C, 0x0D, 0x1A,
    0x1B, 0x2B, 0, 0x27, 0x28, 0x29, 0x33, 0x34, 0x35, 0, 0, 0, 0, 0, 0, 0,
    0, 0, 0, 0, 0, 0, 0, 0, 0, 0, 0, 0, 0, 0, 0, keyRight,
    keyLeft, keyDown, keyUp]

/-- `hid_to_ps2`, with no mapping for what is beyond the table. -/
def hidToPs2 (k : UInt8) : UInt8 := hidToPs2Table.getD k.toNat 0

/-- A boot report. -/
abbrev Report := Fin 8 → UInt8

/-- The keys of a report. -/
def keys (r : Report) : List UInt8 := [r 2, r 3, r 4, r 5, r 6, r 7]

/-- `HID_MOD_SHIFT`. -/
def hidModShift : UInt8 := 0x02 ||| 0x20

/-- The scancodes injected for the shift keys. -/
def shiftScancodes (prev curr : Report) : List UInt8 :=
  let prevShift := prev 0 &&& hidModShift ≠ 0
  let currShift := curr 0 &&& hidModShift ≠ 0
  (if ¬prevShift ∧ currShift then [0x2A] else []) ++ if prevShift ∧ ¬currShift then [0xAA] else []

/-- The loop over the keys that are pressed, with the `break` behind the first scancode. -/
def pressLoop (prev : Report) : List UInt8 → List UInt8
  | [] => []
  | k :: ks =>
    if k = 0 ∨ k = 1 then pressLoop prev ks
    else if k ∈ keys prev then pressLoop prev ks
    else if hidToPs2 k ≠ 0 then [hidToPs2 k]
    else pressLoop prev ks

/-- The loop over the keys that are released. -/
def releaseLoop (curr : Report) : List UInt8 → List UInt8
  | [] => []
  | k :: ks =>
    if k = 0 ∨ k = 1 then releaseLoop curr ks
    else if k ∈ keys curr then releaseLoop curr ks
    else if hidToPs2 k ≠ 0 ∧ hidToPs2 k < 0x60 then (hidToPs2 k ||| 0x80) :: releaseLoop curr ks
    else releaseLoop curr ks

/-- `kbd_inject_scancode` of one scancode after the other. -/
def injectAll (s : Keyboard) : List UInt8 → Keyboard × List KeyPush
  | [] => (s, [])
  | sc :: scs =>
    let r := injectAll (s.kbdInjectScancode sc).1 scs
    (r.1, (s.kbdInjectScancode sc).2 ++ r.2)

/-- `process_kbd_report`: the keyboard and the events after a report, given the previous one. -/
def processKbdReport (prev : Report) (s : Keyboard) (curr : Report) : Keyboard × List KeyPush :=
  injectAll s (shiftScancodes prev curr ++ pressLoop prev
    (keys curr) ++ releaseLoop curr (keys prev))

/-- The events of one report after the other. -/
def processAll (prev : Report) (s : Keyboard) : List Report → List (List KeyPush)
  | [] => []
  | curr :: reports =>
    (processKbdReport prev s curr).2 :: processAll curr (processKbdReport prev s curr).1 reports

/-! ## The edges of a key -/

/-- The key has a scancode of its own. -/
def Mapped (k : UInt8) : Prop := hidToPs2 k ≠ 0 ∧ hidToPs2 k < 0x60

instance (k : UInt8) : Decidable (Mapped k) := inferInstanceAs (Decidable (_ ∧ _))

/-- The events of a key among others: whether it goes down or up. -/
def eventsOf (k : UInt8) (ps : List KeyPush) : List Bool :=
  ps.filterMap fun p => if p.scancode = hidToPs2 k then some p.down else none

/-- The edge of a key from one report to the next. -/
def edge (k : UInt8) (prev curr : Report) : List Bool :=
  if k ∈ keys curr ∧ k ∉ keys prev then [true]
  else if k ∈ keys prev ∧ k ∉ keys curr then [false]
  else []

/-- The edges of a key, report by report. -/
def edges (k : UInt8) (prev : Report) : List Report → List (List Bool)
  | [] => []
  | curr :: reports => edge k prev curr :: edges k curr reports

/-- Makes and breaks take turns, beginning with a make if the key is up. -/
def TakeTurns (held : Bool) : List Bool → Prop
  | [] => True
  | down :: es => down = !held ∧ TakeTurns down es

/-- The keys that a report has anew, those without a scancode left out. -/
def fresh (prev curr : Report) : List UInt8 :=
  (keys curr).filter fun k => hidToPs2 k ≠ 0 ∧ k ∉ keys prev

/-- The keys with a scancode of their own that a report has no more. -/
def gone (prev curr : Report) : List UInt8 :=
  (keys prev).filter fun k => Mapped k ∧ k ∉ keys curr

/-- At most one key goes down, which comes first if an arrow does, and no key goes up at two
places. -/
structure OneByOne (prev curr : Report) : Prop where
  press : ∀ k ∈ fresh prev curr, Mapped k → (fresh prev curr).head? = some k
  release : (gone prev curr).Nodup

/-- Every report follows the previous one by at most one key. -/
def AllOneByOne (prev : Report) : List Report → Prop
  | [] => True
  | curr :: reports => OneByOne prev curr ∧ AllOneByOne curr reports

/-! ## What a report injects -/

variable {k : UInt8} {prev curr : Report}

lemma hidToPs2_mem (k : UInt8) : hidToPs2 k ∈ hidToPs2Table := by
  rw [hidToPs2, List.getD_eq_getElem?_getD]
  cases h : hidToPs2Table[k.toNat]? with
  | none => exact List.mem_cons_self
  | some c => exact List.mem_of_getElem? h

/-- A scancode is a make code, and not that of a shift key. -/
lemma hidToPs2_make (k : UInt8) : hidToPs2 k &&& 0x80 = 0 ∧ hidToPs2 k &&& 0x7F = hidToPs2 k ∧
    (hidToPs2 k ||| 0x80) &&& 0x80 ≠ 0 ∧ (hidToPs2 k ||| 0x80) &&& 0x7F = hidToPs2 k ∧
    hidToPs2 k ≠ 0x2A := by
  have hall : ∀ c ∈ hidToPs2Table, c &&& 0x80 = 0 ∧ c &&& 0x7F = c ∧ (c ||| 0x80) &&& 0x80 ≠ 0 ∧
      (c ||| 0x80) &&& 0x7F = c ∧ c ≠ 0x2A := by
    decide +kernel
  exact hall _ (hidToPs2_mem k)

/-- No two keys share a scancode. -/
lemma hidToPs2_inj {k' : UInt8} (h : hidToPs2 k ≠ 0) (heq : hidToPs2 k' = hidToPs2 k) : k' = k := by
  have hall : ∀ p ∈ hidToPs2Table.zipIdx, p.1 ≠ 0 → hidToPs2Table.idxOf p.1 = p.2 := by
    decide +kernel
  have hplace : ∀ k, hidToPs2 k ≠ 0 → hidToPs2Table.idxOf (hidToPs2 k) = k.toNat := by
    intro k hk
    rw [hidToPs2, List.getD_eq_getElem?_getD] at hk ⊢
    cases hentry : hidToPs2Table[k.toNat]? with
    | none => exact absurd (by rw [hentry]; rfl) hk
    | some c =>
      rw [hentry] at hk
      exact hall (c, k.toNat) (List.mk_mem_zipIdx_iff_getElem?.mpr hentry) hk
  have hk' := hplace k' (heq ▸ h)
  rw [heq, hplace k h] at hk'
  exact (UInt8.toNat_inj.mp hk').symm

/-- Every scancode injected is one event. -/
lemma kbdInjectScancode_pushes (s : Keyboard) (sc : UInt8) :
    ∃ ch, (s.kbdInjectScancode sc).2 = [⟨sc &&& 0x7F, sc &&& 0x80 = 0, ch⟩] := by
  have harrow : ∀ i : Fin 256, keyUp ≤ UInt8.ofFin i → UInt8.ofFin i ≤ keyRight →
      UInt8.ofFin i &&& 0x7F = UInt8.ofFin i ∧ UInt8.ofFin i &&& 0x80 = 0 := by
    decide +kernel
  have hmake : ∀ i : Fin 256, UInt8.ofFin i &&& 0x80 = 0 →
      UInt8.ofFin i &&& 0x7F = UInt8.ofFin i := by
    decide +kernel
  unfold kbdInjectScancode
  by_cases hrange : keyUp ≤ sc ∧ sc ≤ keyRight
  · obtain ⟨hcode, hdown⟩ := harrow sc.toFin hrange.1 hrange.2
    change sc &&& 0x7F = sc at hcode
    change sc &&& 0x80 = 0 at hdown
    exact ⟨0, by simp [hrange, hcode, hdown]⟩
  · simp only [if_neg hrange, kbdPushEvent_eq]
    by_cases hdown : sc &&& 0x80 = 0
    · have hcode : sc &&& 0x7F = sc := hmake sc.toFin hdown
      rw [if_pos hdown]
      exact ⟨_, by rw [hcode, decide_eq_true hdown]⟩
    · rw [if_neg hdown]
      exact ⟨0, by rw [decide_eq_false hdown]⟩

/-- The events of a key are those of the scancodes injected. -/
lemma eventsOf_injectAll (k : UInt8) (s : Keyboard) (scs : List UInt8) :
    eventsOf k (injectAll s scs).2 = scs.filterMap fun sc =>
      if sc &&& 0x7F = hidToPs2 k then some (decide (sc &&& 0x80 = 0)) else none := by
  induction scs generalizing s with
  | nil => rfl
  | cons sc scs ih =>
    obtain ⟨ch, hpush⟩ := kbdInjectScancode_pushes s sc
    rw [injectAll, eventsOf, List.filterMap_append, hpush, List.filterMap_cons]
    have hrest := ih (s.kbdInjectScancode sc).1
    rw [eventsOf] at hrest
    rw [hrest, List.filterMap_cons, List.filterMap_nil]
    by_cases hcode : sc &&& 0x7F = hidToPs2 k
    · rw [if_pos hcode]
      rfl
    · rw [if_neg hcode]
      rfl

/-- What is not a key has no scancode. -/
lemma hidToPs2_of_rollover (h : k = 0 ∨ k = 1) : hidToPs2 k = 0 := by
  rcases h with rfl | rfl <;> decide

/-- The first of the keys that a report has anew is injected. -/
lemma pressLoop_eq (prev : Report) (ks : List UInt8) :
    pressLoop prev ks =
      ((ks.filter fun k => hidToPs2 k ≠ 0 ∧ k ∉ keys prev).head?.map hidToPs2).toList := by
  induction ks with
  | nil => rfl
  | cons k ks ih =>
    rw [pressLoop, List.filter_cons]
    by_cases hnone : k = 0 ∨ k = 1
    · rw [if_pos hnone, ih, if_neg (by simp [hidToPs2_of_rollover hnone])]
    by_cases hheld : k ∈ keys prev
    · rw [if_neg hnone, if_pos hheld, ih, if_neg (by simp [hheld])]
    rw [if_neg hnone, if_neg hheld]
    by_cases hcode : hidToPs2 k ≠ 0
    · rw [if_pos hcode, if_pos (decide_eq_true ⟨hcode, hheld⟩)]
      rfl
    · rw [if_neg hcode, ih, if_neg fun h => hcode (of_decide_eq_true h).1]

/-- The keys that are gone are injected. -/
lemma releaseLoop_eq (curr : Report) (ks : List UInt8) :
    releaseLoop curr ks =
      (ks.filter fun k => Mapped k ∧ k ∉ keys curr).map fun k => hidToPs2 k ||| 0x80 := by
  induction ks with
  | nil => rfl
  | cons k ks ih =>
    rw [releaseLoop, List.filter_cons]
    by_cases hnone : k = 0 ∨ k = 1
    · rw [if_pos hnone, ih, if_neg (by simp [Mapped, hidToPs2_of_rollover hnone])]
    by_cases hheld : k ∈ keys curr
    · rw [if_neg hnone, if_pos hheld, ih, if_neg (by simp [hheld])]
    rw [if_neg hnone, if_neg hheld]
    by_cases hcode : hidToPs2 k ≠ 0 ∧ hidToPs2 k < 0x60
    · rw [if_pos hcode, ih, if_pos (decide_eq_true ⟨hcode, hheld⟩)]
      rfl
    · rw [if_neg hcode, ih, if_neg fun h => hcode (of_decide_eq_true h).1]

lemma mem_shiftScancodes {sc : UInt8} (h : sc ∈ shiftScancodes prev curr) : sc &&& 0x7F = 0x2A := by
  have hor : sc = 0x2A ∨ sc = 0xAA := by
    rcases List.mem_append.mp h with hmem | hmem <;> split_ifs at hmem
    · exact Or.inl (List.mem_singleton.mp hmem)
    · exact absurd hmem List.not_mem_nil
    · exact Or.inr (List.mem_singleton.mp hmem)
    · exact absurd hmem List.not_mem_nil
  rcases hor with rfl | rfl <;> decide

/-- The scancodes of a key are its own. -/
lemma make_eq_iff (hk : Mapped k) (k' : UInt8) : hidToPs2 k' &&& 0x7F = hidToPs2 k ↔ k' = k := by
  rw [(hidToPs2_make k').2.1]
  exact ⟨hidToPs2_inj hk.1, fun h => by rw [h]⟩

lemma break_eq_iff (hk : Mapped k) (k' : UInt8) :
    (hidToPs2 k' ||| 0x80) &&& 0x7F = hidToPs2 k ↔ k' = k := by
  rw [(hidToPs2_make k').2.2.2.1]
  exact ⟨hidToPs2_inj hk.1, fun h => by rw [h]⟩

/-- The breaks of a key among those of others. -/
lemma filterMap_breaks (hk : Mapped k) (l : List UInt8) :
    (l.map fun k => hidToPs2 k ||| 0x80).filterMap (fun sc =>
      if sc &&& 0x7F = hidToPs2 k then some (decide (sc &&& 0x80 = 0)) else none) =
        List.replicate (l.count k) false := by
  induction l with
  | nil => rfl
  | cons k' l ih =>
    rw [List.map_cons, List.filterMap_cons, ih, List.count_cons]
    by_cases heq : k' = k
    · rw [if_pos ((break_eq_iff hk k').mpr heq), if_pos (beq_iff_eq.mpr heq),
        decide_eq_false (hidToPs2_make k').2.2.1]
      rfl
    · rw [if_neg (fun h => heq ((break_eq_iff hk k').mp h)),
        if_neg (by simpa using heq), Nat.add_zero]

/-- The events of a key with a scancode of its own, from one report. -/
lemma eventsOf_processKbdReport (hk : Mapped k) (prev curr : Report) (s : Keyboard) :
    eventsOf k (processKbdReport prev s curr).2 =
      (if (fresh prev curr).head? = some k then [true] else []) ++
        List.replicate ((gone prev curr).count k) false := by
  have hshift : (shiftScancodes prev curr).filterMap (fun sc =>
      if sc &&& 0x7F = hidToPs2 k then some (decide (sc &&& 0x80 = 0)) else none) = [] := by
    refine List.filterMap_eq_nil_iff.mpr fun sc hsc => if_neg ?_
    rw [mem_shiftScancodes hsc]
    exact (hidToPs2_make k).2.2.2.2.symm
  have hpress : (pressLoop prev (keys curr)).filterMap (fun sc =>
      if sc &&& 0x7F = hidToPs2 k then some (decide (sc &&& 0x80 = 0)) else none) =
        if (fresh prev curr).head? = some k then [true] else [] := by
    rw [pressLoop_eq]
    change ((fresh prev curr).head?.map hidToPs2).toList.filterMap _ = _
    cases (fresh prev curr).head? with
    | none => rfl
    | some k' =>
      rw [Option.map_some, Option.toList_some, List.filterMap_cons]
      by_cases heq : k' = k
      · rw [if_pos ((make_eq_iff hk k').mpr heq), if_pos (congrArg some heq),
          decide_eq_true (hidToPs2_make k').1]
        rfl
      · rw [if_neg (fun h => heq ((make_eq_iff hk k').mp h)), if_neg fun h =>
          heq (Option.some.inj h)]
        rfl
  rw [processKbdReport, eventsOf_injectAll, List.filterMap_append, List.filterMap_append, hshift,
    hpress, releaseLoop_eq, filterMap_breaks hk, List.nil_append, gone]

lemma mem_fresh : k ∈ fresh prev curr ↔ k ∈ keys curr ∧ hidToPs2 k ≠ 0 ∧ k ∉ keys prev := by
  rw [fresh, List.mem_filter, decide_eq_true_iff]

lemma mem_gone : k ∈ gone prev curr ↔ k ∈ keys prev ∧ Mapped k ∧ k ∉ keys curr := by
  rw [gone, List.mem_filter, decide_eq_true_iff]

/-- The events of a key are its edge exactly if it is the first to go down, when it does, and goes
up once, when it does. -/
lemma eventsOf_eq_edge_iff (hk : Mapped k) (s : Keyboard) :
    eventsOf k (processKbdReport prev s curr).2 = edge k prev curr ↔
      (k ∈ fresh prev curr → (fresh prev curr).head? = some k) ∧ (gone prev curr).count k ≤ 1 := by
  rw [eventsOf_processKbdReport hk, edge]
  have hhead : (fresh prev curr).head? = some k → k ∈ fresh prev curr := List.mem_of_head?
  by_cases hdown : k ∈ keys curr ∧ k ∉ keys prev
  · have hnone : (gone prev curr).count k = 0 :=
      List.count_eq_zero.mpr fun hmem => hdown.2 (mem_gone.mp hmem).1
    have hfresh : k ∈ fresh prev curr := mem_fresh.mpr ⟨hdown.1, hk.1, hdown.2⟩
    rw [if_pos hdown, hnone, List.replicate_zero, List.append_nil]
    simp [hfresh]
  · have hold : k ∉ fresh prev curr := fun hmem =>
      hdown ⟨(mem_fresh.mp hmem).1, (mem_fresh.mp hmem).2.2⟩
    rw [if_neg hdown, if_neg fun h => hold (hhead h), List.nil_append]
    by_cases hup : k ∈ keys prev ∧ k ∉ keys curr
    · have hpos : 0 < (gone prev curr).count k :=
        List.count_pos_iff.mpr (mem_gone.mpr ⟨hup.1, hk, hup.2⟩)
      have honce : List.replicate ((gone prev curr).count k) false = [false] ↔
          (gone prev curr).count k = 1 :=
        ⟨fun h => by simpa using congrArg List.length h, fun h => by rw [h]; rfl⟩
      rw [if_pos hup, honce]
      exact ⟨fun h => ⟨fun hmem => absurd hmem hold, h.le⟩, fun h => le_antisymm h.2 hpos⟩
    · have hnone : (gone prev curr).count k = 0 :=
        List.count_eq_zero.mpr fun hmem => hup ⟨(mem_gone.mp hmem).1, (mem_gone.mp hmem).2.2⟩
      rw [if_neg hup, hnone, List.replicate_zero]
      simp [hold]

/-- The events of all keys are their edges exactly if a report follows the previous one by one key
at a time. -/
lemma forall_eventsOf_eq_edge_iff (prev curr : Report) (s : Keyboard) :
    (∀ k, Mapped k → eventsOf k (processKbdReport prev s curr).2 = edge k prev curr) ↔
      OneByOne prev curr := by
  constructor
  · intro hall
    refine ⟨fun k hmem hk => ((eventsOf_eq_edge_iff hk s).mp (hall k hk)).1 hmem, ?_⟩
    refine List.nodup_iff_count_le_one.mpr fun k => ?_
    by_cases hk : Mapped k
    · exact ((eventsOf_eq_edge_iff hk s).mp (hall k hk)).2
    · rw [List.count_eq_zero.mpr fun hmem => hk (mem_gone.mp hmem).2.1]
      exact Nat.zero_le 1
  · intro h k hk
    exact (eventsOf_eq_edge_iff hk s).mpr
      ⟨fun hmem => h.press k hmem hk, List.nodup_iff_count_le_one.mp h.release k⟩

/-! ## Runs -/

/-- The edges of a key take turns. -/
lemma takeTurns_edges (k : UInt8) (prev : Report) (reports : List Report) :
    TakeTurns (k ∈ keys prev) (edges k prev reports).flatten := by
  induction reports generalizing prev with
  | nil => trivial
  | cons curr reports ih =>
    have hrest := ih curr
    rw [edges, List.flatten_cons, edge]
    by_cases hprev : k ∈ keys prev <;> by_cases hcurr : k ∈ keys curr <;>
      simp_all [TakeTurns]

/-- From the first report on, the events of every key with a scancode of its own take turns, and
each report has its edge. -/
def Edges (s : Keyboard) (reports : List Report) : Prop :=
  ∀ k, Mapped k →
    TakeTurns false (eventsOf k (processAll (fun _ => 0) s reports).flatten) ∧
      (processAll (fun _ => 0) s reports).map (eventsOf k) = edges k (fun _ => 0) reports

lemma map_eventsOf_iff (prev : Report) (s : Keyboard) (reports : List Report) :
    (∀ k, Mapped k → (processAll prev s reports).map (eventsOf k) = edges k prev reports) ↔
      AllOneByOne prev reports := by
  induction reports generalizing prev s with
  | nil => exact iff_of_true (fun _ _ => rfl) trivial
  | cons curr reports ih =>
    rw [AllOneByOne, ← forall_eventsOf_eq_edge_iff prev curr s,
      ← ih curr (processKbdReport prev s curr).1]
    simp only [processAll, edges, List.map_cons, List.cons.injEq]
    exact ⟨fun h => ⟨fun k hk => (h k hk).1, fun k hk => (h k hk).2⟩,
      fun h k hk => ⟨h.1 k hk, h.2 k hk⟩⟩

lemma eventsOf_flatten (k : UInt8) (l : List (List KeyPush)) :
    eventsOf k l.flatten = (l.map (eventsOf k)).flatten := by
  induction l with
  | nil => rfl
  | cons ps l ih =>
    rw [List.flatten_cons, List.map_cons, List.flatten_cons, ← ih]
    exact List.filterMap_append

/-- The keys have the events of their edges exactly if every report follows the previous one by one
key at a time. -/
theorem edges_iff (s : Keyboard) (reports : List Report) :
    Edges s reports ↔ AllOneByOne (fun _ => 0) reports := by
  rw [← map_eventsOf_iff (fun _ => 0) s reports]
  constructor
  · exact fun h k hk => (h k hk).2
  · intro h k hk
    have hup : decide (k ∈ keys fun _ => 0) = false := by
      refine decide_eq_false fun hmem => hk.1 ?_
      have hzero : k ∈ List.replicate 6 0 := hmem
      rw [List.eq_of_mem_replicate hzero]
      rfl
    refine ⟨?_, h k hk⟩
    rw [eventsOf_flatten, h k hk, ← hup]
    exact takeTurns_edges k _ reports

/-- The keys A and B, which go down in the same report. -/
theorem not_edges_of_two_keys :
    ¬Edges ⟨0, false, false, false⟩ [fun i => if i = 2 then 0x04 else if i = 3 then
    0x05 else 0] := by
  intro h
  exact absurd (h 0x05 (by decide)).2 (by decide)

end UsbKeyboard

end CoolFrost

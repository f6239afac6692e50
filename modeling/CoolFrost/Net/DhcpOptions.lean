import CoolFrost.Lib.Buffer
import CoolFrost.Net.DhcpLease

/-!
# The DHCP options field

What `dhcp_option_type` and `dhcp_parse_options` read.  They check that a tag is inside the field,
but neither its length nor its value, so that an item that the end of the field cuts off is still
looked at, and taken over if its tag and length are right.
-/

namespace CoolFrost

open Program

namespace Dhcp

/-! ## The items -/

/-- An item: its tag, its length and the place of its value. -/
structure Item where
  tag : UInt8
  len : UInt8
  val : ℕ

/-- The item at `i`. -/
def itemAt (opts : Bytes) (i : ℕ) : Item := ⟨opts i, opts (i + 1), i + 2⟩

/-- The place behind the item at `i`. -/
def itemEnd (opts : Bytes) (i : ℕ) : ℕ := i + 2 + (opts (i + 1)).toNat

lemma lt_itemEnd (opts : Bytes) (i : ℕ) : i + 1 < itemEnd opts i := by
  unfold itemEnd
  omega

/-- The complete items from `i` on, up to the end tag or the end of the field. -/
def itemsFrom (opts : Bytes) (i : ℕ) : List Item :=
  if i < optionsLen ∧ opts i ≠ 0xFF then
    if opts i = 0 then itemsFrom opts (i + 1)
    else if itemEnd opts i ≤ optionsLen then itemAt opts i :: itemsFrom opts (itemEnd opts i)
    else []
  else []
termination_by optionsLen - i
decreasing_by
  · omega
  · have hlt := lt_itemEnd opts i
    omega

/-- The place of the item that the end of the field cuts off. -/
def cutFrom (opts : Bytes) (i : ℕ) : Option ℕ :=
  if i < optionsLen ∧ opts i ≠ 0xFF then
    if opts i = 0 then cutFrom opts (i + 1)
    else if itemEnd opts i ≤ optionsLen then cutFrom opts (itemEnd opts i)
    else some i
  else none
termination_by optionsLen - i
decreasing_by
  · omega
  · have hlt := lt_itemEnd opts i
    omega

/-- The message type. -/
def Item.isType (it : Item) : Bool := it.tag = 53 ∧ it.len = 1

/-- A mask, a router or a server identifier. -/
def Item.isTaken (it : Item) : Bool :=
  isMask it.tag it.len || isRouter it.tag it.len || isServer it.tag it.len

/-! ## The two loops -/

/-- The static variables, and the items that have been taken over. -/
structure Parser where
  client : Dhcp
  taken : List Item

/-- Take an item over. -/
def Parser.take (opts : Bytes) (s : Parser) (it : Item) : Parser :=
  ⟨takeOption it.tag it.len (.read opts it.val) s.client, s.taken ++ [it]⟩

/-- `dhcp_option_type` from index `i` on, in at most `n` rounds. -/
def scanType (opts : Bytes) : ℕ → ℕ → Program Parser UInt8
  | 0, _ => fun _ => none
  | n + 1, i =>
    if i < optionsLen then do
      let tag ← loadByte optionsLen opts i
      if tag = 0xFF then pure 0
      else if tag = 0 then scanType opts n (i + 1)
      else do
        let len ← loadByte optionsLen opts (i + 1)
        if tag = 53 ∧ len = 1 then do
          let mtype ← loadByte optionsLen opts (i + 2)
          modify fun s => { s with taken := s.taken ++ [⟨tag, len, i + 2⟩] }
          return mtype
        else scanType opts n (i + 2 + len.toNat)
    else pure 0

/-- `dhcp_parse_options` from index `i` on, in at most `n` rounds. -/
def scanOptions (opts : Bytes) : ℕ → ℕ → Program Parser PUnit
  | 0, _ => fun _ => none
  | n + 1, i =>
    if i < optionsLen then do
      let tag ← loadByte optionsLen opts i
      if tag = 0xFF then pure PUnit.unit
      else if tag = 0 then scanOptions opts n (i + 1)
      else do
        let len ← loadByte optionsLen opts (i + 1)
        if isMask tag len || isRouter tag len || isServer tag len then do
          inside optionsLen (i + 2) 4
          modify fun s => s.take opts ⟨tag, len, i + 2⟩
          scanOptions opts n (i + 2 + len.toNat)
        else scanOptions opts n (i + 2 + len.toNat)
    else pure PUnit.unit

/-- `dhcp_option_type`, with its reads. -/
def readType (opts : Bytes) : Program Parser UInt8 := scanType opts optionsLen 4

/-- `dhcp_parse_options`, with its reads. -/
def readOptions (opts : Bytes) : Program Parser PUnit := scanOptions opts optionsLen 4

/-! ## The rounds -/

variable {opts : Bytes} {i n : ℕ} {s : Parser}

lemma items_end (h : ¬(i < optionsLen ∧ opts i ≠ 0xFF)) :
    itemsFrom opts i = [] ∧ cutFrom opts i = none := by
  rw [itemsFrom, cutFrom, if_neg h, if_neg h]
  exact ⟨rfl, rfl⟩

lemma items_pad (h : i < optionsLen) (hpad : opts i = 0) :
    itemsFrom opts i = itemsFrom opts (i + 1) ∧ cutFrom opts i = cutFrom opts (i + 1) := by
  have hne : opts i ≠ 0xFF := by rw [hpad]; decide
  rw [itemsFrom, cutFrom, if_pos ⟨h, hne⟩, if_pos hpad, if_pos ⟨h, hne⟩, if_pos hpad]
  exact ⟨rfl, rfl⟩

lemma items_item (h : i < optionsLen) (hend : opts i ≠ 0xFF) (hpad : opts i ≠ 0)
    (hle : itemEnd opts i ≤ optionsLen) :
    itemsFrom opts i = itemAt opts i :: itemsFrom opts (itemEnd opts i) ∧
      cutFrom opts i = cutFrom opts (itemEnd opts i) := by
  constructor
  · rw [itemsFrom, if_pos ⟨h, hend⟩, if_neg hpad, if_pos hle]
  · rw [cutFrom, if_pos ⟨h, hend⟩, if_neg hpad, if_pos hle]

lemma items_cut (h : i < optionsLen) (hend : opts i ≠ 0xFF) (hpad : opts i ≠ 0)
    (hlt : ¬itemEnd opts i ≤ optionsLen) : itemsFrom opts i = [] ∧ cutFrom opts i = some i := by
  rw [itemsFrom, cutFrom, if_pos ⟨h, hend⟩, if_neg hpad, if_neg hlt, if_pos ⟨h, hend⟩, if_neg hpad,
    if_neg hlt]
  exact ⟨rfl, rfl⟩

/-- The message type is that of the first item that has one. -/
def TypeTaken (opts : Bytes) (items : List Item) (s : Parser) (r : UInt8) (s' : Parser) : Prop :=
  r = ((items.find? Item.isType).map fun it => opts it.val).getD 0 ∧
    s' = ⟨s.client, s.taken ++ (items.find? Item.isType).toList⟩

/-- All masks, routers and server identifiers are taken over. -/
def OptionsTaken (opts : Bytes) (items : List Item) (s s' : Parser) : Prop :=
  s' = (items.filter Item.isTaken).foldl (Parser.take opts) s

/-- The item that is cut off is left alone by `dhcp_option_type`. -/
def TypeOk (opts : Bytes) (items : List Item) (cut : Option ℕ) : Prop :=
  items.find? Item.isType = none →
    ∀ c ∈ cut, c + 1 < optionsLen ∧ (itemAt opts c).isType = false

/-- The item that is cut off is left alone by `dhcp_parse_options`. -/
def OptionsOk (opts : Bytes) (cut : Option ℕ) : Prop :=
  ∀ c ∈ cut, c + 1 < optionsLen ∧ (itemAt opts c).isTaken = false

lemma typeTaken_nil : TypeTaken opts [] s 0 s :=
  ⟨rfl, by rw [List.find?_nil, Option.toList_none, List.append_nil]⟩

lemma typeOk_none : TypeOk opts [] none := fun _ c hc => absurd hc (Option.not_mem_none c)

lemma typeOk_some :
    TypeOk opts [] (some i) ↔ i + 1 < optionsLen ∧ (itemAt opts i).isType = false := by
  constructor
  · exact fun h => h rfl i rfl
  · rintro h - c hc
    obtain rfl := Option.some.inj hc
    exact h

lemma optionsOk_none : OptionsOk opts none := fun c hc => absurd hc (Option.not_mem_none c)

lemma optionsOk_some :
    OptionsOk opts (some i) ↔ i + 1 < optionsLen ∧ (itemAt opts i).isTaken = false := by
  constructor
  · exact fun h => h i rfl
  · intro h c hc
    obtain rfl := Option.some.inj hc
    exact h

/-- An address is taken over from four bytes. -/
lemma four_le_of_isTaken (h : (itemAt opts i).isTaken = true) : 4 ≤ (opts (i + 1)).toNat := by
  rw [Item.isTaken, Bool.or_eq_true, Bool.or_eq_true] at h
  rcases h with (h | h) | h
  · obtain ⟨-, hlen⟩ := of_decide_eq_true h
    change opts (i + 1) = 4 at hlen
    rw [hlen]
    decide
  · exact UInt8.le_iff_toNat_le.mp (of_decide_eq_true h).2
  · obtain ⟨-, hlen⟩ := of_decide_eq_true h
    change opts (i + 1) = 4 at hlen
    rw [hlen]
    decide

/-- The loop of `dhcp_option_type`. -/
lemma wp_scanType_iff (hn : 0 < n) (hfuel : optionsLen < n + i) :
    wp (scanType opts n i) (TypeTaken opts (itemsFrom opts i) s) s ↔
      TypeOk opts (itemsFrom opts i) (cutFrom opts i) := by
  induction n generalizing i with
  | zero => exact absurd hn (lt_irrefl 0)
  | succ n ih =>
    by_cases hi : i < optionsLen
    swap
    · obtain ⟨hitems, hcut⟩ := @items_end opts i fun h => hi h.1
      rw [scanType, if_neg hi, wp_pure, hitems, hcut]
      exact iff_of_true typeTaken_nil typeOk_none
    rw [scanType, if_pos hi, wp_bind, wp_loadByte, and_iff_right hi]
    by_cases hend : opts i = 0xFF
    · obtain ⟨hitems, hcut⟩ := items_end fun h => h.2 hend
      rw [if_pos hend, wp_pure, hitems, hcut]
      exact iff_of_true typeTaken_nil typeOk_none
    rw [if_neg hend]
    by_cases hpad : opts i = 0
    · obtain ⟨hitems, hcut⟩ := items_pad hi hpad
      rw [if_pos hpad, hitems, hcut]
      exact ih (by omega) (by omega)
    rw [if_neg hpad, wp_bind, wp_loadByte]
    have hlt := lt_itemEnd opts i
    by_cases hle : itemEnd opts i ≤ optionsLen
    · obtain ⟨hitems, hcut⟩ := items_item hi hend hpad hle
      rw [and_iff_right (by omega), hitems, hcut]
      by_cases htype : opts i = 53 ∧ opts (i + 1) = 1
      · have hfind : (itemAt opts i :: itemsFrom opts (itemEnd opts i)).find? Item.isType =
            some (itemAt opts i) := List.find?_cons_of_pos (decide_eq_true htype)
        have hval : i + 2 < optionsLen := by
          rw [itemEnd, htype.2] at hle
          exact hle
        rw [if_pos htype, TypeOk, hfind]
        simp only [wp_bind, wp_loadByte, wp_modify, wp_pure]
        refine iff_of_true ⟨hval, ?_⟩ fun h => absurd h (Option.some_ne_none _)
        rw [TypeTaken, hfind]
        exact ⟨rfl, rfl⟩
      · have hfind : (itemAt opts i :: itemsFrom opts (itemEnd opts i)).find? Item.isType =
            (itemsFrom opts (itemEnd opts i)).find? Item.isType :=
          List.find?_cons_of_neg fun h => htype (of_decide_eq_true h)
        rw [if_neg htype, TypeOk, hfind]
        unfold TypeTaken
        rw [hfind]
        exact ih (by omega) (by omega)
    · -- nothing comes behind the item that is cut off
      obtain ⟨hitems, hcut⟩ := items_cut hi hend hpad hle
      obtain ⟨hitems', hcut'⟩ := @items_end opts (itemEnd opts i) fun h => hle h.1.le
      rw [hitems, hcut, typeOk_some]
      refine and_congr_right fun hlen => ?_
      by_cases htype : opts i = 53 ∧ opts (i + 1) = 1
      · have hval : ¬i + 2 < optionsLen := by
          rw [itemEnd, htype.2] at hle
          exact hle
        rw [if_pos htype, wp_bind, wp_loadByte]
        refine iff_of_false (fun h => hval h.1) fun h => ?_
        exact absurd (decide_eq_true htype) (Bool.eq_false_iff.mp h)
      · have hnext := ih (i := itemEnd opts i) (by omega) (by omega)
        rw [hitems', hcut'] at hnext
        rw [if_neg htype]
        exact iff_of_true (hnext.mpr typeOk_none) (decide_eq_false htype)

/-- The loop of `dhcp_parse_options`. -/
lemma wp_scanOptions_iff (hn : 0 < n) (hfuel : optionsLen < n + i) :
    wp (scanOptions opts n i) (fun _ => OptionsTaken opts (itemsFrom opts i) s) s ↔
      OptionsOk opts (cutFrom opts i) := by
  induction n generalizing i s with
  | zero => exact absurd hn (lt_irrefl 0)
  | succ n ih =>
    by_cases hi : i < optionsLen
    swap
    · obtain ⟨hitems, hcut⟩ := @items_end opts i fun h => hi h.1
      rw [scanOptions, if_neg hi, wp_pure, hitems, hcut]
      exact iff_of_true rfl optionsOk_none
    rw [scanOptions, if_pos hi, wp_bind, wp_loadByte, and_iff_right hi]
    by_cases hend : opts i = 0xFF
    · obtain ⟨hitems, hcut⟩ := items_end fun h => h.2 hend
      rw [if_pos hend, wp_pure, hitems, hcut]
      exact iff_of_true rfl optionsOk_none
    rw [if_neg hend]
    by_cases hpad : opts i = 0
    · obtain ⟨hitems, hcut⟩ := items_pad hi hpad
      rw [if_pos hpad, hitems, hcut]
      exact ih (by omega) (by omega)
    have htest : (isMask (opts i) (opts (i + 1)) || isRouter (opts i) (opts (i + 1)) ||
      isServer (opts i) (opts (i + 1))) = (itemAt opts i).isTaken := rfl
    rw [if_neg hpad, wp_bind, wp_loadByte, htest]
    have hlt := lt_itemEnd opts i
    by_cases hle : itemEnd opts i ≤ optionsLen
    · obtain ⟨hitems, hcut⟩ := items_item hi hend hpad hle
      rw [and_iff_right (by omega), hitems, hcut]
      unfold OptionsTaken
      by_cases htaken : (itemAt opts i).isTaken = true
      · have hval := four_le_of_isTaken htaken
        rw [if_pos htaken, List.filter_cons_of_pos htaken, List.foldl_cons]
        simp only [wp_bind, wp_inside, wp_modify]
        rw [and_iff_right (by rw [itemEnd] at hle; omega)]
        exact ih (by omega) (by omega)
      · rw [if_neg htaken, List.filter_cons_of_neg htaken]
        exact ih (by omega) (by omega)
    · -- nothing comes behind the item that is cut off
      obtain ⟨hitems, hcut⟩ := items_cut hi hend hpad hle
      obtain ⟨hitems', hcut'⟩ := @items_end opts (itemEnd opts i) fun h => hle h.1.le
      rw [hitems, hcut, optionsOk_some]
      refine and_congr_right fun hlen => ?_
      have hrun : ∀ t, wp (scanOptions opts n (itemEnd opts i)) (fun _ s' => s' = t) t := by
        intro t
        have hnext := ih (i := itemEnd opts i) (s := t) (by omega) (by omega)
        rw [hitems', hcut'] at hnext
        exact hnext.mpr optionsOk_none
      by_cases htaken : (itemAt opts i).isTaken = true
      · rw [if_pos htaken]
        simp only [wp_bind, wp_inside, wp_modify]
        refine iff_of_false (fun h => ?_) fun h => absurd htaken (Bool.eq_false_iff.mp h)
        obtain ⟨-, s', -, hs, hs'⟩ :=
          wp_and_wlp (hrun (s.take opts (itemAt opts i))) (wlp_of_wp h.2)
        have hlen := congrArg (fun t => t.taken.length) (hs.symm.trans hs')
        simp [Parser.take] at hlen
      · rw [if_neg htaken]
        exact iff_of_true (hrun s) (Bool.eq_false_iff.mpr htaken)

/-! ## The functions of the client -/

/-- What is returned is what the client uses. -/
lemma wlp_scanType (opts : Bytes) (n i : ℕ) (s : Parser) :
    wlp (scanType opts n i) (fun r _ => r = optionTypeFrom opts optionsLen n i) s := by
  induction n generalizing i with
  | zero => exact fun _ _ h => absurd h (by simp [scanType])
  | succ n ih =>
    rw [scanType, optionTypeFrom]
    by_cases hi : i < optionsLen
    swap
    · rw [if_neg hi, if_neg fun h => hi h.1, wlp_pure]
    rw [if_pos hi, wlp_bind, wlp_loadByte]
    intro _
    by_cases hend : opts i = 0xFF
    · rw [if_pos hend, if_neg fun h => h.2 hend, wlp_pure]
    have hmore : i < optionsLen ∧ opts i ≠ 0xFF := ⟨hi, hend⟩
    rw [if_neg hend, if_pos hmore]
    by_cases hpad : opts i = 0
    · rw [if_pos hpad, if_pos hpad]
      exact ih (i + 1)
    rw [if_neg hpad, if_neg hpad, wlp_bind, wlp_loadByte]
    intro _
    by_cases htype : opts i = 53 ∧ opts (i + 1) = 1
    · rw [if_pos htype, if_pos htype]
      simp only [wlp_bind, wlp_loadByte, wlp_modify, wlp_pure, implies_true]
    · rw [if_neg htype, if_neg htype]
      exact ih _

/-- An item of another kind changes nothing. -/
lemma takeOption_of_not_taken {it : Item} (h : it.isTaken = false) (val : IpAddr) (c : Dhcp) :
    takeOption it.tag it.len val c = c := by
  rw [Item.isTaken, Bool.or_eq_false_iff, Bool.or_eq_false_iff] at h
  rw [takeOption_eq, h.1.1, h.1.2, h.2]
  rfl

/-- What is left behind is what the client uses. -/
lemma wlp_scanOptions (opts : Bytes) (n i : ℕ) (s : Parser) :
    wlp (scanOptions opts n i)
      (fun _ s' => s'.client = parseOptionsFrom opts optionsLen n i s.client) s := by
  induction n generalizing i s with
  | zero => exact fun _ _ h => absurd h (by simp [scanOptions])
  | succ n ih =>
    rw [scanOptions, parseOptionsFrom]
    by_cases hi : i < optionsLen
    swap
    · rw [if_neg hi, if_neg fun h => hi h.1, wlp_pure]
    rw [if_pos hi, wlp_bind, wlp_loadByte]
    intro _
    by_cases hend : opts i = 0xFF
    · rw [if_pos hend, if_neg fun h => h.2 hend, wlp_pure]
    have hmore : i < optionsLen ∧ opts i ≠ 0xFF := ⟨hi, hend⟩
    rw [if_neg hend, if_pos hmore]
    by_cases hpad : opts i = 0
    · rw [if_pos hpad, if_pos hpad]
      exact ih (i + 1) s
    have htest : (isMask (opts i) (opts (i + 1)) || isRouter (opts i) (opts (i + 1)) ||
      isServer (opts i) (opts (i + 1))) = (itemAt opts i).isTaken := rfl
    rw [if_neg hpad, if_neg hpad, wlp_bind, wlp_loadByte, htest]
    intro _
    by_cases htaken : (itemAt opts i).isTaken = true
    · rw [if_pos htaken]
      simp only [wlp_bind, wlp_inside, wlp_modify]
      exact fun _ => ih _ (s.take opts (itemAt opts i))
    · have hsame := takeOption_of_not_taken (Bool.eq_false_iff.mpr htaken)
        (.read opts (i + 2)) s.client
      change takeOption (opts i) (opts (i + 1)) _ _ = _ at hsame
      rw [if_neg htaken, hsame]
      exact ih _ s

/-- Only the field is read, and what is taken over are the complete items: the first message type,
and all masks, routers and server identifiers. -/
def TakenOver (opts : Bytes) (s : Parser) : Prop :=
  wp (readType opts) (TypeTaken opts (itemsFrom opts 4) s) s ∧
    wp (readOptions opts) (fun _ => OptionsTaken opts (itemsFrom opts 4) s) s

/-- The options are read as they should be exactly if an item that the end of the field cuts off has
its length inside the field and is of no kind that is wanted. -/
theorem takenOver_iff (opts : Bytes) (s : Parser) :
    TakenOver opts s ↔ ∀ c ∈ cutFrom opts 4, c + 1 < optionsLen ∧ (itemAt opts c).isTaken = false ∧
      ((itemsFrom opts 4).find? Item.isType = none → (itemAt opts c).isType = false) := by
  rw [TakenOver, readType, readOptions, wp_scanType_iff (by decide) (by decide),
    wp_scanOptions_iff (by decide) (by decide)]
  constructor
  · rintro ⟨htype, hoptions⟩ c hc
    obtain ⟨hlen, htaken⟩ := hoptions c hc
    exact ⟨hlen, htaken, fun hnone => (htype hnone c hc).2⟩
  · intro h
    refine ⟨fun hnone c hc => ?_, fun c hc => ?_⟩
    · obtain ⟨hlen, -, htype⟩ := h c hc
      exact ⟨hlen, htype hnone⟩
    · obtain ⟨hlen, htaken, -⟩ := h c hc
      exact ⟨hlen, htaken⟩

/-- A gateway is taken over from an item that is cut off. -/
theorem not_takenOver : ¬∀ opts s, TakenOver opts s := by
  intro h
  have hcut : cutFrom (fun i => if i = 4 then 12 else if i = 261 then 3 else 255) 4 = some 261 := by
    rw [(items_item (by decide) (by decide) (by decide) (by decide)).2]
    exact (items_cut (by decide) (by decide) (by decide) (by decide)).2
  have hok := (h (fun i => if i = 4 then 12 else if i = 261 then 3 else 255) ⟨boot, []⟩).2
  rw [readOptions, wp_scanOptions_iff (by decide) (by decide), hcut, optionsOk_some] at hok
  exact absurd hok.2 (by decide)

end Dhcp

end CoolFrost

import CoolFrost.Fs.Fat32.NameRoundTrip

/-!
# FAT32: renaming

Inside of one directory `fat32_rename` writes the new name into the entry.  From one directory to
another it makes a new entry, with the cluster and the size of the old one, and marks the old one
deleted; the attributes and the times of the old entry are lost.
-/

namespace CoolFrost

open Program

namespace Fat32

variable {fs : Fat32Fs} {v v' : Volume} {C : Catalogue} {l l' : List ℕ} {raw name : List UInt8}
  {a d x y : ℕ}

/-! ## What `fat32_rename` does to the volume -/

/-- Changing a part of an entry. -/
lemma wp_updateSlot (hl : Layout fs) (src : Bytes) {len : ℕ} (ha : 32 ∣ a) (hlen : len ≤ 32) :
    (fat32View fs).wp (updateSector fs (placeOf fs a).1
        fun buf => Bytes.blit buf (placeOf fs a).2 src len) (fun ok v' =>
      ok = true ∧ v' = { v with data := Bytes.blit v.data a src len }) v := by
  refine View.wp_bind (wp_readData (a / 512) 1 (by norm_num)) ?_
  rintro _ v₁ ⟨rfl, rfl⟩
  refine View.wp_mono (wp_writeData hl (a / 512) 1 (by norm_num) _) ?_
  rintro ok v₂ ⟨rfl, rfl⟩
  refine ⟨rfl, congrArg (fun d => { v₁ with data := d }) ?_⟩
  rw [placeOf, Bytes.blit_readModify (by omega), Nat.div_add_mod']

/-- The volume with one more node. -/
def Volume.withNode (v : Volume) (nd : Fat32Node) : Volume :=
  { v with nodes := Function.update v.nodes v.used nd, used := v.used + 1 }

/-- The volume after the entry at `y` has got the name `raw` in its place. -/
def Volume.rename (v : Volume) (raw : List UInt8) (y : ℕ) : Volume :=
  { v with data := Bytes.blit v.data y (Bytes.ofList raw) 11 }

/-- The volume after the entry at `y` has been marked deleted. -/
def Volume.delete (v : Volume) (y : ℕ) : Volume := { v with data := Bytes.put8 v.data y 0xE5 }

lemma Volume.delete_of_ne (v : Volume) {i : ℕ} (h : i ≠ y) : (v.delete y).data i = v.data i :=
  if_neg (by omega)

lemma Volume.delete_self (v : Volume) (y : ℕ) : (v.delete y).data y = 0xE5 := if_pos (by omega)

/-- The entry at `y` gets the name `raw`: in its place, or by an entry at `x` for a directory with
the clusters `l`, which then has the clusters `l'`. -/
inductive Renamed (fs : Fat32Fs) (v : Volume) (l : List ℕ) (raw : List UInt8) (y : ℕ) :
    Bool → ℕ → List ℕ → Volume → Prop
  | inPlace : Renamed fs v l raw y true y l (v.rename raw y)
  | moved {x : ℕ} {l' : List ℕ} {v' : Volume}
      (h : Placed fs v l (newEntry raw (deCluster v.data y) (deSize v.data y)) x l' v') :
      Renamed fs v l raw y false x l' (v'.delete y)

lemma mem_of_lookupSlot (h : lookupSlot fs v l name = some y) :
    y ∈ dirSlots fs l ∧ CalledBy v.data y name := by
  have hcalled := List.find?_some h
  exact ⟨(List.takeWhile_sublist _).subset (List.mem_of_find?_eq_some h), by simpa using hcalled⟩

/-- `fat32_rename` gives the entry that is found the new name. -/
lemma wp_rename (hl : Layout fs) {oldDir newDir : ℕ} {oldName newName : List UInt8} {lo ln : List ℕ}
    (ho : DirNode fs v oldDir lo) (hn : DirNode fs v newDir ln) :
    (fat32View fs).wp (fat32Rename oldDir oldName newDir newName) (fun r v' => r = 0 →
      ∃ raw y x l', fat32Parse83 newName = some raw ∧ lookupSlot fs v lo oldName = some y ∧
        Renamed fs (v.withNode (nodeOfEntry fs oldDir (entryAt fs v y))) ln raw y (oldDir = newDir)
          x l' v') v := by
  refine View.wp_get fun s _ hs => ?_
  have hnodes : s.nodePool = v.nodes := congrArg Volume.nodes hs
  rw [hnodes]
  extract_lets fs'
  have hfs' : fs' = fs := ho.onVolume
  rw [hfs']
  refine View.wp_ite (fun _ => View.wp_pure fun h => absurd h (by decide)) fun _ => ?_
  cases hparse : fat32Parse83 newName with
  | none => exact View.wp_pure fun h => absurd h (by decide)
  | some raw =>
    refine View.wp_bind (wp_finddir hl ho.onVolume ho.chain oldName) ?_
    intro r v₁ hr
    rw [lookupEntry_eq hl] at hr
    cases hlook : lookupSlot fs v lo oldName with
    | none =>
      rw [hlook] at hr
      obtain ⟨rfl, rfl⟩ := hr
      exact View.wp_pure fun h => absurd h (by decide)
    | some y =>
      rw [hlook] at hr
      simp only [Option.map_some] at hr
      split_ifs at hr with hfull
      · obtain ⟨rfl, rfl⟩ := hr
        exact View.wp_pure fun h => absurd h (by decide)
      · obtain ⟨rfl, rfl⟩ := hr
        have hdvd := mem_dirSlots_dvd hl (mem_of_lookupSlot hlook).1
        obtain ⟨-, hcluster, hsize⟩ := entryAt_spec fs v hdvd
        change (fat32View fs).wp _ _ (v.withNode (nodeOfEntry fs oldDir (entryAt fs v y)))
        generalize hnd : nodeOfEntry fs oldDir (entryAt fs v y) = nd
        refine View.wp_get fun s₁ _ hs₁ => ?_
        have hnode : s₁.nodePool v.used = nd := by
          have hpool : s₁.nodePool = (v.withNode nd).nodes := congrArg Volume.nodes hs₁
          rw [hpool]
          exact Function.update_self _ _ _
        rw [hnode]
        have hinode : nd.inode = deCluster v.data y := by rw [← hnd, ← hcluster]; rfl
        have hndsize : nd.size = deSize v.data y := by rw [← hnd, ← hsize]; rfl
        have hplace : nd.fi.direntLba = (placeOf fs y).1 ∧ nd.fi.direntOff = (placeOf fs y).2 := by
          rw [← hnd]
          exact ⟨rfl, rfl⟩
        refine View.wp_ite (fun _ => View.wp_pure fun h => absurd h (by decide)) fun _ => ?_
        rw [hinode, hndsize, hplace.1, hplace.2]
        refine View.wp_ite (fun hsame => ?_) fun hdiff => ?_
        · refine View.wp_bind (wp_updateSlot hl _ hdvd (by norm_num)) ?_
          rintro _ v₂ ⟨rfl, rfl⟩
          refine View.wp_ite (fun _ => View.wp_pure fun _ => ?_) fun h => absurd rfl h
          refine ⟨raw, y, y, ln, rfl, rfl, ?_⟩
          rw [hnd, decide_eq_true hsame]
          exact .inPlace
        · have hother : (v.withNode nd).nodes newDir = v.nodes newDir :=
            Function.update_of_ne hn.allocated.ne _ _
          have hchain : ChainAt fs (v.withNode nd).fat ((v.withNode nd).nodes newDir).inode ln := by
            rw [hother]
            exact hn.chain
          refine View.wp_bind (wp_insertDirent hl hchain hn.nonempty) ?_
          rintro r v₂ (⟨rfl, rfl, -⟩ | ⟨x, l', rfl, hplaced⟩)
          · exact View.wp_pure fun h => absurd h (by decide)
          · refine View.wp_bind (wp_updateSlot hl _ hdvd (by norm_num)) ?_
            rintro _ v₃ ⟨rfl, rfl⟩
            refine View.wp_ite (fun _ => View.wp_pure fun _ => ?_) fun h => absurd rfl h
            refine ⟨raw, y, x, l', rfl, rfl, ?_⟩
            rw [hnd, decide_eq_false hdiff]
            exact .moved hplaced

/-! ## The entries before and after -/

/-- The slots of a listed directory. -/
def Catalogue.slots (fs : Fat32Fs) (C : Catalogue) (c : ℕ) : List ℕ :=
  dirSlots fs (C.chain (.dir c))

/-- Two directories have no slot in common. -/
lemma Ok.slot_unique (hok : Ok fs v C) {c c' z : ℕ} (hc : .dir c ∈ C.objs) (hc' : .dir c' ∈ C.objs)
    (hz : z ∈ C.slots fs c) (hz' : z ∈ C.slots fs c') : c = c' := by
  obtain ⟨k, hk, hin⟩ := List.mem_flatMap.mp hz
  obtain ⟨k', hk', hin'⟩ := List.mem_flatMap.mp hz'
  obtain ⟨hlo, hhi⟩ := mem_clusterSlots hin
  obtain ⟨hlo', hhi'⟩ := mem_clusterSlots hin'
  obtain rfl : k = k' := InCluster.unique (hok.chain_mem hc hk).1.1 (hok.chain_mem hc' hk').1.1
    (i := z) ⟨hlo, by omega⟩ ⟨hlo', by omega⟩
  by_contra hne
  exact hok.disjoint _ hc _ hc' (by simpa using hne) k hk hk'

lemma mem_entriesIn (hl : Layout fs) (hchain : ChainAt fs v.fat d l) {p : ℕ × List UInt8} :
    p ∈ entriesIn fs v d ↔
      p.1 ∈ dirSlots fs l ∧ ¬Vacant v.data p.1 ∧ p.2 = Bytes.slice v.data p.1 32 := by
  constructor
  · rintro ⟨l', hchain', h⟩
    rwa [← ChainAt.unique hl hchain' hchain]
  · exact fun h => ⟨l, hchain, h⟩

/-- What renaming the entry at `y` amounts to, when the entry at `x` of the directory `e` has the
new name: the clusters of `e` are then `l`. -/
structure Effect (fs : Fat32Fs) (C : Catalogue) (v v' : Volume) (e : ℕ) (l : List ℕ)
    (raw : List UInt8) (y x : ℕ) : Prop where
  chain : ChainAt fs v'.fat e l
  chains : ∀ c, .dir c ∈ C.objs → c ≠ e → ChainAt fs v'.fat c (C.chain (.dir c))
  slot : x ∈ dirSlots fs l
  kept : ∀ z ∈ C.slots fs e, z ∈ dirSlots fs l
  slots : ∀ z ∈ dirSlots fs l, z ≠ x → v'.data z ≠ 0 → z ∈ C.slots fs e
  old : ∀ c, .dir c ∈ C.objs → ∀ z ∈ C.slots fs c, z ≠ x → z ≠ y →
    ∀ i < 32, v'.data (z + i) = v.data (z + i)
  deleted : x ≠ y → v'.data y = 0xE5
  home : ∀ c, .dir c ∈ C.objs → x ∈ C.slots fs c → c = e
  fresh : x ≠ y → x ∈ C.slots fs e → Vacant v.data x
  bears : Bears v'.data x raw
  reached : raw.getD 0 0 ≠ 0 → x ∈ (dirSlots fs l).takeWhile fun z => v'.data z ≠ 0

namespace Effect

variable {e : ℕ} {old new : List UInt8}

/-- An entry other than the renamed one was there before. -/
lemma before (h : Effect fs C v v' e l raw y x) (he : .dir e ∈ C.objs) {z : ℕ}
    (hz : z ∈ dirSlots fs l) (hne : z ≠ x) (hlive : ¬Vacant v'.data z) :
    z ∈ C.slots fs e ∧ z ≠ y ∧ ∀ i < 32, v'.data (z + i) = v.data (z + i) := by
  have hslot := h.slots z hz hne fun h0 => hlive (.inl h0)
  have hy : z ≠ y := by
    rintro rfl
    exact hlive (.inr (h.deleted (Ne.symm hne)))
  exact ⟨hslot, hy, h.old e he z hslot hne hy⟩

lemma before_other (h : Effect fs C v v' e l raw y x) {c : ℕ} (hc : .dir c ∈ C.objs) (hce : c ≠ e)
    {z : ℕ} (hz : z ∈ C.slots fs c) (hlive : ¬Vacant v'.data z) :
    z ≠ y ∧ ∀ i < 32, v'.data (z + i) = v.data (z + i) := by
  have hne : z ≠ x := fun heq => hce (h.home c hc (heq ▸ hz))
  have hy : z ≠ y := by
    rintro rfl
    exact hlive (.inr (h.deleted (Ne.symm hne)))
  exact ⟨hy, h.old c hc z hz hne hy⟩

/-- The directory has the entries that it had, without the old and with the new one. -/
lemma entered (hl : Layout fs) (hok : Ok fs v C) (h : Effect fs C v v' e l raw y x)
    (he : .dir e ∈ C.objs) (hlive : ¬Vacant v'.data x) : entriesIn fs v' e =
      insert (x, Bytes.slice v'.data x 32) (entriesIn fs v e \ {p | p.1 = y}) := by
  refine Set.ext fun p => ?_
  rw [Set.mem_insert_iff, Set.mem_sdiff, mem_entriesIn hl h.chain,
    mem_entriesIn hl (hok.dirs e he).2]
  constructor
  · rintro ⟨hz, hno, hbytes⟩
    by_cases hx : p.1 = x
    · exact .inl (Prod.ext hx (hx ▸ hbytes))
    · obtain ⟨hslot, hy, hsame⟩ := h.before he hz hx hno
      have hfirst : v'.data p.1 = v.data p.1 := hsame 0 (by norm_num)
      refine .inr ⟨⟨hslot, ?_, hbytes.trans (Bytes.slice_congr hsame)⟩, hy⟩
      rwa [Vacant, ← hfirst]
  · rintro (rfl | ⟨⟨hz, hno, hbytes⟩, hy⟩)
    · exact ⟨h.slot, hlive, rfl⟩
    · have hx : p.1 ≠ x := fun heq => hno <| heq ▸ h.fresh (heq ▸ hy) (heq ▸ hz)
      have hsame := h.old e he p.1 hz hx hy
      have hfirst : v'.data p.1 = v.data p.1 := hsame 0 (by norm_num)
      refine ⟨h.kept p.1 hz, ?_, hbytes.trans (Bytes.slice_congr hsame).symm⟩
      rwa [Vacant, hfirst]

/-- The other directories have the entries that they had, without the old one. -/
lemma others (hl : Layout fs) (hok : Ok fs v C) (h : Effect fs C v v' e l raw y x) {c : ℕ}
    (hc : .dir c ∈ C.objs) (hce : c ≠ e) :
    entriesIn fs v' c = entriesIn fs v c \ {p | p.1 = y} := by
  refine Set.ext fun p => ?_
  rw [Set.mem_sdiff, mem_entriesIn hl (h.chains c hc hce), mem_entriesIn hl (hok.dirs c hc).2]
  constructor
  · rintro ⟨hz, hno, hbytes⟩
    obtain ⟨hy, hsame⟩ := h.before_other hc hce hz hno
    have hfirst : v'.data p.1 = v.data p.1 := hsame 0 (by norm_num)
    refine ⟨⟨hz, ?_, hbytes.trans (Bytes.slice_congr hsame)⟩, hy⟩
    rwa [Vacant, ← hfirst]
  · rintro ⟨⟨hz, hno, hbytes⟩, hy⟩
    have hx : p.1 ≠ x := fun heq => hce (h.home c hc (heq ▸ hz))
    have hsame := h.old c hc p.1 hz hx hy
    have hfirst : v'.data p.1 = v.data p.1 := hsame 0 (by norm_num)
    refine ⟨hz, ?_, hbytes.trans (Bytes.slice_congr hsame).symm⟩
    rwa [Vacant, hfirst]

/-- No entry but the renamed one has a name that was not in the directory. -/
lemma eq_of_calledBy (h : Effect fs C v v' e l raw y x) (he : .dir e ∈ C.objs)
    (habsent : ∀ z ∈ C.slots fs e, ¬CalledBy v.data z new) {z : ℕ} (hz : z ∈ dirSlots fs l)
    (hcalled : CalledBy v'.data z new) : z = x := by
  by_contra hne
  obtain ⟨hslot, -, hsame⟩ :=
    h.before he hz hne fun hv => hv.elim hcalled.1.marks.1 hcalled.1.marks.2
  exact habsent z hslot ((calledBy_congr hsame).mp hcalled)

/-- The entry is found under the new name, if that name is kept. -/
lemma found_iff (h : Effect fs C v v' e l raw y x) (he : .dir e ∈ C.objs)
    (habsent : ∀ z ∈ C.slots fs e, ¬CalledBy v.data z new) (hparse : fat32Parse83 new = some raw)
    (h0 : (0 : UInt8) ∉ new) : (∃ x', lookupSlot fs v' l new = some x') ↔
      Kept new ∧ lookupSlot fs v' l new = some x := by
  constructor
  · rintro ⟨x', hx'⟩
    obtain ⟨hz, hcalled⟩ := mem_of_lookupSlot hx'
    obtain rfl := h.eq_of_calledBy he habsent hz hcalled
    exact ⟨(h.bears.calledBy_iff hparse h0).mp hcalled, hx'⟩
  · exact fun hx => ⟨x, hx.2⟩

lemma found (h : Effect fs C v v' e l raw y x) (he : .dir e ∈ C.objs)
    (habsent : ∀ z ∈ C.slots fs e, ¬CalledBy v.data z new) (hparse : fat32Parse83 new = some raw)
    (h0 : (0 : UInt8) ∉ new) (hkept : Kept new) : lookupSlot fs v' l new = some x := by
  have hcalled : CalledBy v'.data x new := (h.bears.calledBy_iff hparse h0).mpr hkept
  have hreach := h.reached (first_ne_iff hparse h0).1
  cases hlook : lookupSlot fs v' l new with
  | none => exact absurd (by simpa using hcalled) (List.find?_eq_none.mp hlook x hreach)
  | some z =>
    obtain ⟨hz, hcalled'⟩ := mem_of_lookupSlot hlook
    rw [h.eq_of_calledBy he habsent hz hcalled']

/-- The name of a directory's entry is not that of another one. -/
lemma gone (h : Effect fs C v v' e l raw y x) (he : .dir e ∈ C.objs) (hd : .dir d ∈ C.objs)
    (honly : ∀ z ∈ C.slots fs d, CalledBy v.data z old → z = y)
    (hnew : CalledBy v'.data x old → d ≠ e) :
    ∃ l', ChainAt fs v'.fat d l' ∧ lookupSlot fs v' l' old = none := by
  by_cases hde : d = e
  · subst hde
    refine ⟨l, h.chain, List.find?_eq_none.mpr fun z hz => ?_⟩
    have hz' := (List.takeWhile_sublist _).subset hz
    rw [decide_eq_true_eq]
    intro hcalled
    have hx : z ≠ x := fun heq => hnew (heq ▸ hcalled) rfl
    obtain ⟨hslot, hy, hsame⟩ := h.before he hz' hx fun hv =>
      hv.elim hcalled.1.marks.1 hcalled.1.marks.2
    exact hy (honly z hslot ((calledBy_congr hsame).mp hcalled))
  · refine ⟨_, h.chains d hd hde, List.find?_eq_none.mpr fun z hz => ?_⟩
    have hz' := (List.takeWhile_sublist _).subset hz
    rw [decide_eq_true_eq]
    intro hcalled
    obtain ⟨hy, hsame⟩ := h.before_other hd hde hz' fun hv =>
      hv.elim hcalled.1.marks.1 hcalled.1.marks.2
    exact hy (honly z hz' ((calledBy_congr hsame).mp hcalled))

end Effect

/-! ## Both ways to rename have that effect -/

/-- A slot of a directory starts at a multiple of 32. -/
lemma Catalogue.slots_dvd (hl : Layout fs) {c z : ℕ} (hz : z ∈ C.slots fs c) : 32 ∣ z :=
  mem_dirSlots_dvd hl hz

lemma takeWhile_subset {β : Type} {p q : β → Bool} {l : List β}
    (h : ∀ b ∈ l.takeWhile p, q b = true) : l.takeWhile p ⊆ l.takeWhile q := by
  intro b hb
  rw [← List.takeWhile_append_dropWhile (p := p) (l := l), List.takeWhile_append_of_pos h]
  exact List.mem_append_left _ hb

/-- What makes an entry valid besides its first byte. -/
lemma Valid.attr {b : Bytes} (h : Valid b a) :
    deAttr b a ≠ attrLfn ∧ deAttr b a &&& attrVolumeId = 0 := by
  rw [Valid, fat32EntryValid] at h
  split_ifs at h with h0 hE5 hlfn hvol
  exact ⟨hlfn, not_not.mp hvol⟩

/-- Giving the entry a new name in its place. -/
lemma effect_inPlace (hl : Layout fs) (hok : Ok fs v C) (hd : .dir d ∈ C.objs)
    (hfound : lookupSlot fs v (C.chain (.dir d)) name = some y) (hne : raw.getD 0 0 ≠ 0) :
    Effect fs C v (v.rename raw y) d (C.chain (.dir d)) raw y y := by
  obtain ⟨hy, hcalled⟩ := mem_of_lookupSlot hfound
  have hdvd := mem_dirSlots_dvd hl hy
  have hold : ∀ c, ∀ z ∈ C.slots fs c, z ≠ y → ∀ i < 32,
      (v.rename raw y).data (z + i) = v.data (z + i) := by
    intro c z hz hzy i hi
    have hdvd' := Catalogue.slots_dvd hl hz
    exact Bytes.blit_of_not_mem (by omega)
  have hname : ∀ i < 11, (v.rename raw y).data (y + i) = raw.getD i 0 := by
    intro i hi
    refine (Bytes.blit_of_mem (by omega)).trans ?_
    rw [Nat.add_sub_cancel_left]
    rfl
  have hattr : deAttr (v.rename raw y).data y = deAttr v.data y :=
    Bytes.blit_of_not_mem (by omega)
  refine ⟨(hok.dirs d hd).2, fun c hc _ => (hok.dirs c hc).2, hy, fun z hz => hz,
    fun z hz _ _ => hz, fun c hc z hz _ hzy => hold c z hz hzy, fun h => absurd rfl h,
    fun c hc hz => hok.slot_unique hc hd hz hy, fun h => absurd rfl h, ⟨hname, ?_, ?_⟩, fun _ => ?_⟩
  · rw [hattr]
    exact hcalled.1.attr.1
  · rw [hattr]
    exact hcalled.1.attr.2
  · refine takeWhile_subset (fun z hz => ?_) (List.mem_of_find?_eq_some hfound)
    have hlive : v.data z ≠ 0 := by simpa using List.mem_takeWhile_imp hz
    by_cases hzy : z = y
    · have hfirst : (v.rename raw y).data y = raw.getD 0 0 := hname 0 (by norm_num)
      rw [hzy, hfirst]
      exact decide_eq_true hne
    · have hfirst : (v.rename raw y).data z = v.data z :=
        hold d z ((List.takeWhile_sublist _).subset hz) hzy 0 (by norm_num)
      rw [hfirst]
      exact decide_eq_true hlive

/-- A valid entry is not at the place of an entry that has been put in. -/
lemma Placed.ne_valid (hl : Layout fs) {new : Bytes} (hchain : ChainAt fs v.fat d l') {l₁ : List ℕ}
    (h : Placed fs v l new x l₁ v') (hy : y ∈ dirSlots fs l') (hvalid : Valid v.data y) :
    y ≠ x := by
  rintro rfl
  cases h with
  | slot h =>
    have hold : Vacant v.data y := by simpa using List.find?_some h
    exact hold.elim hvalid.marks.1 hvalid.marks.2
  | grown hno hc hfree =>
    have hpos := clusterSize_pos hl
    have hapart := Placed.apart hchain hc hfree hy
    omega

namespace Placed

variable {new : Bytes} {e : ℕ}

/-- The other directories keep their clusters. -/
lemma chain_other (hok : Ok fs v C) (he : .dir e ∈ C.objs)
    (h : Placed fs v (C.chain (.dir e)) new x l' v')
    {c : ℕ} (hc : .dir c ∈ C.objs) (hce : c ≠ e) : ChainAt fs v'.fat c (C.chain (.dir c)) := by
  have hchain := (hok.dirs c hc).2
  cases h with
  | slot h => exact hchain
  | @grown k hno hk hfree =>
    refine hchain.congr fun m hm => ?_
    have hlast : m ≠ (C.chain (.dir e)).getLastD 0 := fun heq =>
      hok.disjoint _ hc _ he (by simpa using hce) m hm (heq ▸ mem_of_getLastD (hok.dirs e he).1)
    have hnew : m ≠ k := fun heq => hchain.ne_zero hm (heq ▸ hfree)
    simp only [Function.update_of_ne hlast, Function.update_of_ne hnew]

/-- The entry is in no other directory. -/
lemma home (hl : Layout fs) (hok : Ok fs v C) (he : .dir e ∈ C.objs)
    (h : Placed fs v (C.chain (.dir e)) new x l' v') {c : ℕ} (hc : .dir c ∈ C.objs)
    (hx : x ∈ C.slots fs c) : c = e := by
  cases h with
  | slot h => exact hok.slot_unique hc he hx (List.mem_of_find?_eq_some h)
  | grown hno hk hfree =>
    have hpos := clusterSize_pos hl
    have hapart := apart (hok.dirs c hc).2 hk hfree hx
    omega

lemma subset (h : Placed fs v l new x l' v') : dirSlots fs l ⊆ dirSlots fs l' := by
  cases h with
  | slot h => exact fun z hz => hz
  | grown hno hk hfree =>
    intro z hz
    rw [dirSlots, List.flatMap_append]
    exact List.mem_append_left _ hz

/-- The slots that the directory grows by are free. -/
lemma mem_of_ne_zero (hl : Layout fs) (h : Placed fs v l new x l' v') {z : ℕ}
    (hz : z ∈ dirSlots fs l') (hzx : z ≠ x) (hlive : v'.data z ≠ 0) : z ∈ dirSlots fs l := by
  have hdvd := mem_dirSlots_dvd hl hz
  cases h with
  | slot h => exact hz
  | @grown k hno hk hfree =>
    rw [dirSlots, List.flatMap_append, List.flatMap_singleton] at hz
    refine (List.mem_append.mp hz).resolve_right fun hmem => hlive ?_
    obtain ⟨hlo, hhi⟩ := mem_clusterSlots hmem
    have hdvd' := mem_dirSlots_dvd hl (List.mem_flatMap.mpr ⟨k, List.mem_singleton_self k, hmem⟩)
    have hoff : 32 ∣ clusterOff fs k := by
      rw [clusterOff_eq]
      exact Dvd.dvd.mul_left (by decide) _
    simp only
    rw [Bytes.blit_of_not_mem (by omega), Bytes.blit_of_mem (by omega)]
    rfl

lemma vacant (hl : Layout fs) (hchain : ChainAt fs v.fat d l) (h : Placed fs v l new x l' v')
    (hx : x ∈ dirSlots fs l) : Vacant v.data x := by
  cases h with
  | slot h => simpa using List.find?_some h
  | grown hno hk hfree =>
    have hpos := clusterSize_pos hl
    have hapart := apart hchain hk hfree hx
    omega

end Placed

/-- Making a new entry and deleting the old one. -/
lemma effect_moved (hl : Layout fs) (hok : Ok fs v C) {e cluster size : ℕ} (hd : .dir d ∈ C.objs)
    (he : .dir e ∈ C.objs) (hy : y ∈ C.slots fs d) (hvalid : Valid v.data y)
    (h : Placed fs v (C.chain (.dir e)) (newEntry raw cluster size) x l' v') :
    Effect fs C v (v'.delete y) e l' raw y x := by
  have hchain := (hok.dirs e he).2
  have hdvd := Catalogue.slots_dvd hl hy
  have hxy : y ≠ x := h.ne_valid hl (hok.dirs d hd).2 hy hvalid
  obtain ⟨post, hslots⟩ := h.slots hl
  have hx : x ∈ dirSlots fs l' := hslots ▸ List.mem_append_right _ List.mem_cons_self
  have hdvd' := mem_dirSlots_dvd hl hx
  have hat : ∀ i < 32, (v'.delete y).data (x + i) = newEntry raw cluster size i := fun i hi => by
    rw [v'.delete_of_ne (by omega), h.data_new i hi]
  have hold : ∀ c, .dir c ∈ C.objs → ∀ z ∈ C.slots fs c, z ≠ x → z ≠ y →
      ∀ i < 32, (v'.delete y).data (z + i) = v.data (z + i) := by
    intro c hc z hz hzx hzy i hi
    have hdvdz := Catalogue.slots_dvd hl hz
    rw [v'.delete_of_ne (by omega), h.data_old hl (hok.dirs c hc).2 hz hzx i hi]
  have hbears : Bears (v'.delete y).data x raw := by
    obtain ⟨hname, hlfn, hlabel⟩ := bears_newEntry raw cluster size
    have hattr : deAttr (v'.delete y).data x = deAttr (newEntry raw cluster size) 0 :=
      hat 11 (by norm_num)
    refine ⟨fun i hi => ?_, by rwa [hattr], by rwa [hattr]⟩
    rw [hat i (by omega), ← hname i hi, Nat.zero_add]
  have hreached : raw.getD 0 0 ≠ 0 →
      x ∈ (dirSlots fs l').takeWhile fun z => (v'.delete y).data z ≠ 0 := by
    intro hne
    have hfirst : (v'.delete y).data x = raw.getD 0 0 := hbears.name 0 (by norm_num)
    rw [hslots, List.takeWhile_append_of_pos, List.takeWhile_cons_of_pos]
    · exact List.mem_append_right _ List.mem_cons_self
    · rw [hfirst]
      exact decide_eq_true hne
    · intro z hz
      by_cases hzy : z = y
      · rw [hzy, v'.delete_self]
        decide
      · rw [v'.delete_of_ne hzy]
        exact decide_eq_true (h.front hl hchain hz).2.1
  have hchain' : ChainAt fs v'.fat e l' := h.chain hl hchain (hok.dirs e he).1
  refine ⟨hchain', fun c hc hce => h.chain_other hok he hc hce, hx,
    fun z hz => h.subset hz, fun z hz hzx hlive => ?_, hold, fun _ => v'.delete_self y,
    fun c hc hxc => h.home hl hok he hc hxc, fun _ hxe => h.vacant hl hchain hxe, hbears, hreached⟩
  refine h.mem_of_ne_zero hl hz hzx ?_
  by_cases hzy : z = y
  · have hfirst : v'.data y = v.data y := h.data_old hl (hok.dirs d hd).2 hy hxy 0 (by norm_num)
    rw [hzy, hfirst]
    exact hvalid.marks.1
  · rwa [v'.delete_of_ne hzy] at hlive

/-! ## What a new entry keeps of an old one -/

/-- The entry has no attribute but the archive one, and no times. -/
structure Bare (b : Bytes) (a : ℕ) : Prop where
  attr : deAttr b a = attrArchive
  created : ∀ i, 12 ≤ i → i < 20 → b (a + i) = 0
  written : ∀ i, 22 ≤ i → i < 26 → b (a + i) = 0

lemma newEntry_written (raw : List UInt8) (cluster size : ℕ) {i : ℕ} (hlo : 22 ≤ i) (hhi : i < 26) :
    newEntry raw cluster size i = 0 := by
  rw [newEntry, deSetClusterSize, Bytes.put16, Bytes.put16, Bytes.put32, Bytes.put8,
    Bytes.blit_of_not_mem (by omega), Bytes.blit_of_not_mem (by omega),
    Bytes.blit_of_not_mem (by omega), Bytes.blit_of_not_mem (by omega),
    Bytes.blit_of_not_mem (by omega)]
  rfl

/-- Cluster and size make up eight bytes of an entry. -/
lemma bytes_of_cluster_size {b b' : Bytes} {a' : ℕ} (hcluster : deCluster b a = deCluster b' a')
    (hsize : deSize b a = deSize b' a') {i : ℕ} (hi : i = 20 ∨ i = 21 ∨ 26 ≤ i ∧ i < 32) :
    b (a + i) = b' (a' + i) := by
  have hlo := Bytes.le16_lt b (a + 26)
  have hlo' := Bytes.le16_lt b' (a' + 26)
  unfold deCluster at hcluster
  have h20 := @Bytes.le16_inj b b' (a + 20) (a' + 20) (by omega)
  have h26 := @Bytes.le16_inj b b' (a + 26) (a' + 26) (by omega)
  have h28 := Bytes.le32_inj hsize
  simp only [Nat.add_assoc] at h20 h26 h28
  rcases hi with rfl | rfl | ⟨hlo, hhi⟩
  · exact h20 0 (by norm_num)
  · exact h20 1 (by norm_num)
  · by_cases hlt : i < 28
    · have h := h26 (i - 26) (by omega)
      rwa [Nat.add_sub_cancel' hlo] at h
    · have h := h28 (i - 28) (by omega)
      rwa [Nat.add_sub_cancel' (Nat.le_of_not_lt hlt)] at h

/-- A new entry with the cluster and the size of an old one is like it exactly if the old one is
bare. -/
lemma newEntry_fields_iff (raw : List UInt8) (b : Bytes) (a : ℕ) :
    (∀ i, 11 ≤ i → i < 32 → newEntry raw (deCluster b a) (deSize b a) i = b (a + i)) ↔
    Bare b a := by
  have hlt : deCluster b a < 2 ^ 32 := by
    have hlo := Bytes.le16_lt b (a + 26)
    have hhi := Bytes.le16_lt b (a + 20)
    unfold deCluster
    omega
  obtain ⟨-, -, hcluster, hsize⟩ := newEntry_parts raw hlt (Bytes.le32_lt b (a + 28))
  constructor
  · intro h
    refine ⟨?_, fun i hlo hhi => ?_, fun i hlo hhi => ?_⟩
    · rw [deAttr, ← h 11 le_rfl (by norm_num), newEntry_low _ _ _ (by norm_num), if_pos rfl]
    · rw [← h i (by omega) (by omega), newEntry_low _ _ _ (by omega), if_neg (by omega),
        if_neg (by omega)]
    · rw [← h i (by omega) (by omega), newEntry_written _ _ _ hlo hhi]
  · intro h i hlo hhi
    by_cases h11 : i = 11
    · rw [h11, newEntry_low _ _ _ (by norm_num), if_pos rfl]
      exact h.attr.symm
    by_cases h20 : i < 20
    · rw [newEntry_low _ _ _ h20, if_neg h11, if_neg (by omega), h.created i (by omega) h20]
    by_cases h22 : 22 ≤ i ∧ i < 26
    · rw [newEntry_written _ _ _ h22.1 h22.2, h.written i h22.1 h22.2]
    · have hsame := bytes_of_cluster_size hcluster hsize (i := i) (by omega)
      rwa [Nat.zero_add] at hsame

namespace Renamed

variable {e : ℕ} {p : Bool}

lemma effect (hl : Layout fs) (hok : Ok fs v C) (hd : .dir d ∈ C.objs) (he : .dir e ∈ C.objs)
    (hfound : lookupSlot fs v (C.chain (.dir d)) name = some y) (hp : p = true → d = e)
    (hne : raw.getD 0 0 ≠ 0) (h : Renamed fs v (C.chain (.dir e)) raw y p x l' v') :
    Effect fs C v v' e l' raw y x := by
  cases h with
  | inPlace =>
    obtain rfl := hp rfl
    exact effect_inPlace hl hok hd hfound hne
  | moved h =>
    obtain ⟨hy, hcalled⟩ := mem_of_lookupSlot hfound
    exact effect_moved hl hok hd he hy hcalled.1 h

/-- The other fields are kept in place; a new entry has them only if the old one is bare. -/
lemma fields_iff (hl : Layout fs) (hok : Ok fs v C) (hd : .dir d ∈ C.objs) (hy : y ∈ C.slots fs d)
    (hvalid : Valid v.data y) (h : Renamed fs v l raw y p x l' v') :
    (∀ i, 11 ≤ i → i < 32 → v'.data (x + i) = v.data (y + i)) ↔ p = true ∨ Bare v.data y := by
  cases h with
  | inPlace => exact iff_of_true (fun i hlo _ => Bytes.blit_of_not_mem (by omega)) (.inl rfl)
  | @moved _ _ v₂ h =>
    have hxy := h.ne_valid hl (hok.dirs d hd).2 hy hvalid
    have hdvd := Catalogue.slots_dvd hl hy
    obtain ⟨post, hslots⟩ := h.slots hl
    have hdvd' := mem_dirSlots_dvd hl (hslots ▸ List.mem_append_right _ List.mem_cons_self)
    have hat : ∀ i < 32, (v₂.delete y).data (x + i) =
        newEntry raw (deCluster v.data y) (deSize v.data y) i := fun i hi => by
      rw [v₂.delete_of_ne (by omega), h.data_new i hi]
    rw [← newEntry_fields_iff raw, or_iff_right (by decide)]
    refine forall_congr' fun i => imp_congr_right fun _ => forall_congr' fun hhi => ?_
    rw [hat i hhi]

/-- The table is as before, but for a cluster that the directory may grow by. -/
lemma table (hchain : ChainAt fs v.fat e l) (h : Renamed fs v l raw y p x l' v') :
    v'.fat = v.fat ∨ ∃ l c, ChainAt fs v.fat e l ∧ ¬HasFreeSlot fs v l ∧
      InRange fs c ∧ v.fat c = 0 ∧
      v'.fat = Function.update (Function.update v.fat c fat32Eoc) (l.getLastD 0) c := by
  cases h with
  | inPlace => exact .inl rfl
  | moved h =>
    cases h with
    | slot h => exact .inl rfl
    | @grown c hno hc hfree => exact .inr ⟨l, c, hchain, hno, hc, hfree, rfl⟩

end Renamed

/-! ## Renaming moves the entry -/

/-- A directory of a well-formed volume that has a node. -/
structure ListedDir (fs : Fat32Fs) (v : Volume) (C : Catalogue) (dir : ℕ) : Prop where
  allocated : dir < v.used
  onVolume : (v.nodes dir).fi.fs = fs
  listed : .dir (v.nodes dir).inode ∈ C.objs

lemma ListedDir.dirNode (h : ListedDir fs v C a) (hok : Ok fs v C) :
    DirNode fs v a (C.chain (.dir (v.nodes a).inode)) :=
  ⟨h.allocated, h.onVolume, (hok.dirs _ h.listed).2, (hok.dirs _ h.listed).1⟩

/-- No two entries of a directory have the same name. -/
def DistinctNames (fs : Fat32Fs) (v : Volume) (C : Catalogue) : Prop :=
  ∀ c, .dir c ∈ C.objs → ∀ z ∈ C.slots fs c, ∀ z' ∈ C.slots fs c, Valid v.data z → Valid v.data z' →
    fat32Strcasecmp (fat32Format83 v.data z) (fat32Format83 v.data z') = 0 → z = z'

/-- The entry at `y` of the directory `d`, called `old`, has become the entry at `x` of the
directory `e`, called `new`, and nothing else has changed. -/
structure EntryMoved (fs : Fat32Fs) (C : Catalogue) (v v' : Volume) (d e : ℕ) (old new : List UInt8)
    (y x : ℕ) : Prop where
  found : ∃ l, ChainAt fs v'.fat e l ∧ lookupSlot fs v' l new = some x
  fields : ∀ i, 11 ≤ i → i < 32 → v'.data (x + i) = v.data (y + i)
  gone : ∃ l, ChainAt fs v'.fat d l ∧ lookupSlot fs v' l old = none
  entered : entriesIn fs v' e =
    insert (x, Bytes.slice v'.data x 32) (entriesIn fs v e \ {p | p.1 = y})
  others : ∀ c, .dir c ∈ C.objs → c ≠ e → entriesIn fs v' c = entriesIn fs v c \ {p | p.1 = y}
  table : v'.fat = v.fat ∨ ∃ l c, ChainAt fs v.fat e l ∧ ¬HasFreeSlot fs v l ∧ InRange fs c ∧
    v.fat c = 0 ∧ v'.fat = Function.update (Function.update v.fat c fat32Eoc) (l.getLastD 0) c

/-- The directory has the same entries on both volumes, in whatever slots. -/
def SameEntries (fs : Fat32Fs) (v v' : Volume) (d : ℕ) : Prop :=
  Prod.snd '' entriesIn fs v d = Prod.snd '' entriesIn fs v' d

/-- Two names of one entry are names of the same entries. -/
lemma CalledBy.other {b b' : Bytes} {a' : ℕ} {n n' : List UInt8} (hn : (0 : UInt8) ∉ n)
    (hn' : (0 : UInt8) ∉ n') (h : CalledBy b a n) (h' : CalledBy b a n')
    (hother : CalledBy b' a' n) :
    CalledBy b' a' n' := by
  have hz := zero_not_mem_format
  have heq := (strcasecmp_eq_zero_iff (hz b a) hn).mp h.2
  have heq' := (strcasecmp_eq_zero_iff (hz b a) hn').mp h'.2
  have heq'' := (strcasecmp_eq_zero_iff (hz b' a') hn).mp hother.2
  refine ⟨hother.1, (strcasecmp_eq_zero_iff (hz b' a') hn').mpr ?_⟩
  rw [heq'', ← heq, heq']

lemma DistinctNames.eq (h : DistinctNames fs v C) (hd : .dir d ∈ C.objs) (h0 : (0 : UInt8) ∉ name)
    (hy : y ∈ C.slots fs d) (hcalled : CalledBy v.data y name) :
    ∀ z ∈ C.slots fs d, CalledBy v.data z name → z = y := by
  intro z hz hcalled'
  have hf := zero_not_mem_format v.data
  refine h d hd z hz y hy hcalled'.1 hcalled.1 ((strcasecmp_eq_zero_iff (hf z) (hf y)).mpr ?_)
  rw [(strcasecmp_eq_zero_iff (hf z) h0).mp hcalled'.2,
    (strcasecmp_eq_zero_iff (hf y) h0).mp hcalled.2]

/-- When the entry has moved. -/
lemma Renamed.moved_iff (hl : Layout fs) (hok : Ok fs v C) (hnames : DistinctNames fs v C) {e : ℕ}
    {p : Bool} {old new : List UInt8} (hd : .dir d ∈ C.objs) (he : .dir e ∈ C.objs)
    (hold : (0 : UInt8) ∉ old) (hnew : (0 : UInt8) ∉ new)
    (hfound : lookupSlot fs v (C.chain (.dir d)) old = some y)
    (hnone : lookupSlot fs v (C.chain (.dir e)) new = none) (hparse : fat32Parse83 new = some raw)
    (hp : p = true → d = e) (h : Renamed fs v (C.chain (.dir e)) raw y p x l' v') :
    (∃ x, EntryMoved fs C v v' d e old new y x) ↔ Kept new ∧ (p = true ∨ Bare v.data y) := by
  obtain ⟨hy, hcalled⟩ := mem_of_lookupSlot hfound
  have hfields := h.fields_iff hl hok hd hy hcalled.1
  have heff := h.effect hl hok hd he hfound hp (first_ne_iff hparse hnew).1
  have habsent := not_calledBy_of_lookupSlot hl (hok.ended e he) hnone
  constructor
  · rintro ⟨x', hmoved⟩
    obtain ⟨l₁, hchain, hlook⟩ := hmoved.found
    obtain rfl := ChainAt.unique hl hchain heff.chain
    obtain ⟨hkept, hlook'⟩ := (heff.found_iff he habsent hparse hnew).mp ⟨x', hlook⟩
    obtain rfl : x' = x := Option.some_injective _ (hlook.symm.trans hlook')
    exact ⟨hkept, hfields.mp hmoved.fields⟩
  · rintro ⟨hkept, hbare⟩
    have hlook := heff.found he habsent hparse hnew hkept
    have hcalled' := (mem_of_lookupSlot hlook).2
    refine ⟨x, ⟨_, heff.chain, hlook⟩, hfields.mpr hbare,
      heff.gone he hd (hnames.eq hd hold hy hcalled) fun hcalledOld hde => ?_,
      heff.entered hl hok he fun hv => hv.elim hcalled'.1.marks.1 hcalled'.1.marks.2,
      fun c hc hce => heff.others hl hok hc hce, h.table (hok.dirs e he).2⟩
    exact habsent y (hde ▸ hy) (hcalledOld.other hold hnew hcalled' hcalled)

/-- Two renamings inside of a directory leave the same entries, if the new one bears the same
fields. -/
lemma Renamed.sameEntries (hl : Layout fs) (hok : Ok fs v C) {p p' : Bool} {old new : List UInt8}
    {v'' : Volume} {l'' : List ℕ} {x' : ℕ} (hd : .dir d ∈ C.objs) (hnew : (0 : UInt8) ∉ new)
    (hfound : lookupSlot fs v (C.chain (.dir d)) old = some y)
    (hparse : fat32Parse83 new = some raw)
    (hkept : Kept new) (h : Renamed fs v (C.chain (.dir d)) raw y p x l' v')
    (h' : Renamed fs v (C.chain (.dir d)) raw y p' x' l'' v'')
    (hfields : p = true ∨ Bare v.data y) (hfields' : p' = true ∨ Bare v.data y) :
    SameEntries fs v'' v' d := by
  obtain ⟨hy, hcalled⟩ := mem_of_lookupSlot hfound
  have hraw := (first_ne_iff hparse hnew).1
  have heff := h.effect hl hok hd hd hfound (fun _ => rfl) hraw
  have heff' := h'.effect hl hok hd hd hfound (fun _ => rfl) hraw
  have hlive := ((heff.bears.calledBy_iff hparse hnew).mpr hkept).1.marks
  have hlive' := ((heff'.bears.calledBy_iff hparse hnew).mpr hkept).1.marks
  have hslice : Bytes.slice v''.data x' 32 = Bytes.slice v'.data x 32 := by
    refine Bytes.slice_congr fun i hi => ?_
    by_cases hlt : i < 11
    · rw [heff.bears.name i hlt, heff'.bears.name i hlt]
    · rw [(h.fields_iff hl hok hd hy hcalled.1).mpr hfields i (by omega) hi,
        (h'.fields_iff hl hok hd hy hcalled.1).mpr hfields' i (by omega) hi]
  rw [SameEntries, heff.entered hl hok hd fun hv => hv.elim hlive.1 hlive.2,
    heff'.entered hl hok hd fun hv => hv.elim hlive'.1 hlive'.2, Set.image_insert_eq,
    Set.image_insert_eq, hslice]

lemma Ok.withNode (h : Ok fs v C) (nd : Fat32Node) : Ok fs (v.withNode nd) C :=
  ⟨h.root, h.dirs, h.files, h.disjoint, h.entries, h.ended⟩

/-- When a call of `fat32_rename` succeeds, it has moved the entry, and between two nodes of one
directory with the same result as within one node, exactly if the new name is kept and the entry
stays in its place or is bare. -/
theorem rename_moved_iff {s : Fat32State} {oldDir newDir : ℕ} {oldName newName : List UInt8}
    (hl : Layout fs) (hs : Sound fs s) (hok : Ok fs ((fat32View fs).view s) C)
    (hnames : DistinctNames fs ((fat32View fs).view s) C)
    (ho : ListedDir fs ((fat32View fs).view s) C oldDir)
    (hn : ListedDir fs ((fat32View fs).view s) C newDir)
    (hold : (0 : UInt8) ∉ oldName) (hnew : (0 : UInt8) ∉ newName)
    (hfound : lookupSlot fs ((fat32View fs).view s)
      (C.chain (.dir (s.nodePool oldDir).inode)) oldName = some y)
    (hnone : lookupSlot fs ((fat32View fs).view s)
      (C.chain (.dir (s.nodePool newDir).inode)) newName = none) :
    wp (fat32Rename oldDir oldName newDir newName) (fun r s' => r = 0 →
      (((∃ x, EntryMoved fs C ((fat32View fs).view s) ((fat32View fs).view s')
        (s.nodePool oldDir).inode
          (s.nodePool newDir).inode oldName newName y x) ∧
        ((s.nodePool oldDir).inode = (s.nodePool newDir).inode →
          wp (fat32Rename oldDir oldName oldDir newName) (fun r₁ s₁ => r₁ = 0 →
            SameEntries fs ((fat32View fs).view s₁) ((fat32View fs).view s')
              (s.nodePool oldDir).inode) s)) ↔
        Kept newName ∧ (oldDir = newDir ∨ Bare ((fat32View fs).view s).data y))) s := by
  generalize hv : (fat32View fs).view s = v at *
  have hpool : s.nodePool = v.nodes := congrArg Volume.nodes hv
  rw [hpool] at hfound hnone ⊢
  have ho' := ho.dirNode hok
  refine wp_mono (wp_rename hl ho' (hn.dirNode hok) s hs hv) fun r s' hr hr0 => ?_
  obtain ⟨raw, y', x, l', hparse, hfound', hren⟩ := hr.2 hr0
  obtain rfl : y' = y := Option.some_injective _ (hfound'.symm.trans hfound)
  have hp : decide (oldDir = newDir) = true → (v.nodes oldDir).inode = (v.nodes newDir).inode := by
    intro h
    rw [of_decide_eq_true h]
  have hmoved := hren.moved_iff hl (hok.withNode _) hnames ho.listed hn.listed hold
    hnew hfound hnone
    hparse hp
  rw [decide_eq_true_eq] at hmoved
  constructor
  · rintro ⟨⟨x', hx'⟩, -⟩
    exact hmoved.mp ⟨x', hx'.found, hx'.fields, hx'.gone, hx'.entered, hx'.others, hx'.table⟩
  · intro hcond
    obtain ⟨x', hx'⟩ := hmoved.mpr hcond
    refine ⟨⟨x', hx'.found, hx'.fields, hx'.gone, hx'.entered, hx'.others, hx'.table⟩,
      fun hsame => ?_⟩
    refine wp_mono (wp_rename hl ho' ho' s hs hv) fun r₁ s₁ hr₁ hr₁0 => ?_
    obtain ⟨raw₁, y₁, x₁, l₁, hparse₁, hfound₁, hren₁⟩ := hr₁.2 hr₁0
    obtain rfl : y₁ = y' := Option.some_injective _ (hfound₁.symm.trans hfound)
    obtain rfl : raw₁ = raw := Option.some_injective _ (hparse₁.symm.trans hparse)
    rw [← hsame] at hren
    refine hren.sameEntries hl (hok.withNode _) ho.listed hnew hfound hparse hcond.1
      hren₁ ?_ (.inl ?_)
    · rw [decide_eq_true_eq]
      exact hcond.2
    · exact decide_eq_true rfl

/-! ## Two nodes of one directory -/

/-- A volume with an empty file in the root directory, and two nodes of that directory; the file has
the attributes `attr`. -/
def twoNodes (attr : UInt8) : Volume :=
  { sixVolume with data := Bytes.put8 (newEntry fileName 0 0) 11 attr, used := 2 }

lemma twoNodes_oneFile : OneFile sixFs (twoNodes attrArchive) 0 0 [] := by
  refine ⟨rfl, by decide, by decide, .inl ⟨rfl, rfl⟩, by decide, by decide, by
    decide, by decide, ?_⟩
  intro i _
  by_cases h11 : i = 11
  · rw [h11]
    rfl
  · change Bytes.put8 (newEntry fileName 0 0) 11 attrArchive i = _
    rw [Bytes.put8, Bytes.blit_of_not_mem (by omega)]

lemma twoNodes_ok {attr : UInt8} (h : attr &&& attrDirectory = 0) :
    Ok sixFs (twoNodes attr) (oneFileCatalogue []) := by
  refine (twoNodes_oneFile.ok sixFs_layout).patch sixFs_layout (a := 0) (by simp [oneFileCatalogue])
    (by decide) ?_ rfl (fun i hi => ?_) ?_ rfl rfl
  · change (70 : UInt8) ≠ 0
    decide
  · change Bytes.put8 (newEntry fileName 0 0) 11 attr i =
      Bytes.put8 (newEntry fileName 0 0) 11 attrArchive i
    rw [Bytes.put8, Bytes.put8, Bytes.blit_of_not_mem (by omega), Bytes.blit_of_not_mem (by omega)]
  · change decide (attr &&& attrDirectory ≠ 0) = false
    rw [h]
    decide

lemma twoNodes_view (attr : UInt8) :
    (fat32View sixFs).view (stateWith sixFs (twoNodes attr)) = twoNodes attr := by
  refine stateWith_view sixFs_layout (fun c => ?_) fun c hc => if_neg ?_
  · change (if c = 2 then fat32Eoc else 0) < 2 ^ 28
    split_ifs <;> norm_num [fat32Eoc]
  · have htotal : sixFs.totalClusters + 2 = 8 := rfl
    omega

/-- All slots behind the first one are free. -/
lemma twoNodes_names (attr : UInt8) :
    DistinctNames sixFs (twoNodes attr) (oneFileCatalogue []) := by
  have hfree : ∀ z ∈ dirSlots sixFs [2], z ≠ 0 → (twoNodes attr).data z = 0 := by
    intro z hz hne
    have hdvd := mem_dirSlots_dvd sixFs_layout hz
    change Bytes.put8 (newEntry fileName 0 0) 11 attr z = 0
    rw [Bytes.put8, Bytes.blit_of_not_mem (by omega)]
    exact newEntry_zero fileName 0 0 (by omega)
  intro c hc z hz z' hz' hvalid hvalid' _
  obtain rfl : c = 2 := by simpa [oneFileCatalogue] using hc
  by_contra hne
  rcases Nat.eq_zero_or_pos z with rfl | hpos
  · exact hvalid'.marks.1 (hfree z' hz' fun h => hne h.symm)
  · exact hvalid.marks.1 (hfree z hz hpos.ne')

lemma twoNodes_root (attr : UInt8) {dir : ℕ} (h : dir < 2) :
    ListedDir sixFs (twoNodes attr) (oneFileCatalogue []) dir :=
  ⟨h, rfl, by simp [oneFileCatalogue, twoNodes, sixVolume, rootNode, sixFs]⟩

theorem rename_moved_iff_twoNodes : wp (fat32Rename 0 [70] 1 [71]) (fun r s' => r = 0 →
    ∃ x, EntryMoved sixFs (oneFileCatalogue []) (twoNodes attrArchive)
      ((fat32View sixFs).view s') 2 2
      [70] [71] 0 x) (stateWith sixFs (twoNodes attrArchive)) := by
  have hview := twoNodes_view attrArchive
  have hmoved := @rename_moved_iff sixFs (oneFileCatalogue []) 0
    (stateWith sixFs (twoNodes attrArchive)) 0 1 [70] [71] sixFs_layout
    (stateWith_sound rfl (by decide)) (by rw [hview]; exact twoNodes_ok rfl)
    (by rw [hview]; exact twoNodes_names _) (by rw [hview]; exact twoNodes_root _ (by norm_num))
    (by rw [hview]; exact twoNodes_root _ (by norm_num)) (by decide) (by decide)
    (by rw [hview]; decide +kernel) (by rw [hview]; decide +kernel)
  rw [hview] at hmoved
  refine wp_mono hmoved fun r s' h hr => ((h hr).mpr ⟨by decide, .inr ⟨rfl, ?_, ?_⟩⟩).1
  · decide
  · decide

/-- A read-only file is no longer read-only when it has been renamed between two nodes of its
directory. -/
theorem not_rename_moved : ¬ ∀ (fs : Fat32Fs) (C : Catalogue) (s : Fat32State) (oldDir newDir y : ℕ)
    (oldName newName : List UInt8), Layout fs → Sound fs s → Ok fs ((fat32View fs).view s) C →
    DistinctNames fs ((fat32View fs).view s) C → ListedDir fs ((fat32View fs).view s) C oldDir →
    ListedDir fs ((fat32View fs).view s) C newDir → (0 : UInt8) ∉ oldName → (0 : UInt8) ∉ newName →
    Kept newName →
    lookupSlot fs ((fat32View fs).view s) (C.chain (.dir (s.nodePool oldDir).inode))
      oldName = some y →
    lookupSlot fs ((fat32View fs).view s) (C.chain (.dir (s.nodePool newDir).inode))
      newName = none →
    wp (fat32Rename oldDir oldName newDir newName) (fun r s' => r = 0 →
      ∃ x, EntryMoved fs C ((fat32View fs).view s) ((fat32View fs).view s')
        (s.nodePool oldDir).inode
        (s.nodePool newDir).inode oldName newName y x) s := by
  intro h
  have hview := twoNodes_view 0x21
  have hok : Ok sixFs (twoNodes 0x21) (oneFileCatalogue []) := twoNodes_ok rfl
  have hroot := fun dir => @twoNodes_root 0x21 dir
  have hrun : ((fat32Rename 0 [70] 1 [71]).run (stateWith sixFs (twoNodes 0x21))).map
    (fun p => p.1) =
      some 0 := by decide +kernel
  have hfound : lookupSlot sixFs (twoNodes 0x21) [2] [70] = some 0 := by decide +kernel
  have hnone : lookupSlot sixFs (twoNodes 0x21) [2] [71] = none := by decide +kernel
  obtain ⟨r, s', hm, hmoved⟩ :=
    h sixFs (oneFileCatalogue []) (stateWith sixFs (twoNodes 0x21)) 0 1 0
    [70] [71] sixFs_layout (stateWith_sound rfl (by decide)) (by rw [hview]; exact hok)
    (by rw [hview]; exact twoNodes_names _) (by rw [hview]; exact hroot 0 (by norm_num))
    (by rw [hview]; exact hroot 1 (by norm_num)) (by decide) (by decide) (by decide)
    (by rw [hview]; exact hfound) (by rw [hview]; exact hnone)
  rw [StateT.run, hm, Option.map_some, Option.some_inj] at hrun
  have hren := @wp_rename sixFs (twoNodes 0x21) sixFs_layout 0 1 [70] [71] _ _
    ((hroot 0 (by norm_num)).dirNode hok) ((hroot 1 (by norm_num)).dirNode hok)
    (stateWith sixFs (twoNodes 0x21)) (stateWith_sound rfl (by decide)) hview
  rw [wp_iff_of_eq hm] at hren
  obtain ⟨raw, y, x, l', hparse, hfound', hren⟩ := hren.2 hrun
  obtain rfl : y = 0 := Option.some_injective _ (hfound'.symm.trans hfound)
  obtain ⟨x', hx'⟩ := hmoved hrun
  rw [hview] at hx'
  obtain ⟨-, hplace | hbare⟩ := (hren.moved_iff (d := 2) sixFs_layout (hok.withNode _)
    (twoNodes_names _) (by simp [oneFileCatalogue]) (by simp [oneFileCatalogue])
    (by decide) (by decide)
    hfound hnone hparse (fun _ => rfl)).mp
    ⟨x', hx'.found, hx'.fields, hx'.gone, hx'.entered, hx'.others, hx'.table⟩
  · cases hplace
  · exact absurd hbare.attr (by decide)

end Fat32

end CoolFrost

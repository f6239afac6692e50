import CoolFrost.Lib.Search
import CoolFrost.Fs.Fat32.Catalogue

/-!
# FAT32: what a walk over a directory finds

The driver walks a directory cluster by cluster, sector by sector and entry by entry.  All of that
is one search of the list of the directory's entries, in the order of their numbers.
-/

namespace CoolFrost

open Program

namespace Fat32

variable {fs : Fat32Fs} {v : Volume} {α γ : Type}

/-! ## The entries of a directory in order -/

/-- The addresses of the entries of a sector of the data area. -/
def sectorSlots (j : ℕ) : List ℕ := (List.range 16).map fun e => j * 512 + e * 32

/-- The addresses of the entries of a cluster. -/
def clusterSlots (fs : Fat32Fs) (c : ℕ) : List ℕ :=
  (List.range fs.sectorsPerCluster).flatMap fun s =>
  sectorSlots ((c - 2) * fs.sectorsPerCluster + s)

/-- The addresses of the entries of a directory with the clusters `l`. -/
def dirSlots (fs : Fat32Fs) (l : List ℕ) : List ℕ := l.flatMap (clusterSlots fs)

lemma clusterSlots_eq (fs : Fat32Fs) (c : ℕ) : clusterSlots fs c =
    (List.range (16 * fs.sectorsPerCluster)).map fun k => clusterOff fs c + 32 * k := by
  rw [clusterSlots, clusterOff_eq]
  generalize (c - 2) * fs.sectorsPerCluster = j
  induction fs.sectorsPerCluster with
  | zero => rfl
  | succ n ih =>
    rw [List.range_succ, List.flatMap_append, ih, Nat.mul_succ 16 n, List.range_add,
      List.map_append, List.flatMap_singleton, sectorSlots, List.map_map]
    refine congrArg _ (List.map_congr_left fun e _ => ?_)
    simp only [Function.comp_apply]
    ring

/-- The entries of the directory by their numbers. -/
lemma dirSlots_eq (hl : Layout fs) (l : List ℕ) : dirSlots fs l =
    (List.range (l.length * (16 * fs.sectorsPerCluster))).map (slotAt fs l) := by
  induction l with
  | nil => simp [dirSlots]
  | cons c l ih =>
    have hsize := clusterSize_eq fs
    have hpos := clusterSize_pos hl
    rw [dirSlots, List.flatMap_cons, ← dirSlots, ih, List.length_cons,
      Nat.succ_mul l.length, Nat.add_comm (l.length * _), List.range_add,
        List.map_append, List.map_map,
      clusterSlots_eq]
    refine congrArg₂ _ (List.map_congr_left fun k hk => ?_) (List.map_congr_left fun k _ => ?_)
    · have hk' := List.mem_range.mp hk
      rw [slotAt, fileAddr_of_cluster hl (k := 0) (c := c) rfl (by omega) (by omega)]
      omega
    · rw [Function.comp_apply, slotAt, slotAt, fileAddr, fileAddr, Nat.mul_add, ← hsize,
        Nat.add_div_left _ hpos, Nat.add_mod_left]
      rfl

lemma mem_dirSlots (hl : Layout fs) {l : List ℕ} {a : ℕ} :
    a ∈ dirSlots fs l ↔ ∃ k, SlotIn fs l k ∧ a = slotAt fs l k := by
  have hiff : ∀ k, SlotIn fs l k ↔ k < l.length * (16 * fs.sectorsPerCluster) := by
    intro k
    rw [SlotIn, clusterSize_eq]
    constructor <;> intro h <;> nlinarith
  simp only [dirSlots_eq hl, List.mem_map, List.mem_range, hiff, eq_comm]

/-! ## The walk -/

/-- A sector of the data area. -/
def sectorAt (v : Volume) (j : ℕ) : Bytes := Bytes.clip 512 (Bytes.shift v.data (j * 512))

/-- What a walk does at the entry with the address `a`. -/
def entryStep (fs : Fat32Fs) (v : Volume) (visit : ℕ → Bytes → ℕ → γ → γ ⊕ α) (a : ℕ) :
    γ → γ ⊕ α :=
  visit (fs.dataStartLba + a / 512) (sectorAt v (a / 512)) (a % 512)

lemma scanEntries_eq (step : ℕ → γ → γ ⊕ α) {n : ℕ} (hn : n ≤ 16) (acc : γ) :
    scanEntries step n acc = search step ((List.range' (16 - n) n).map (· * 32)) acc := by
  induction n generalizing acc with
  | zero => rfl
  | succ n ih =>
    rw [scanEntries, List.range'_succ, List.map_cons, search]
    have hnext : 16 - (n + 1) + 1 = 16 - n := by omega
    rw [hnext]
    cases step ((16 - (n + 1)) * 32) acc with
    | inl acc => exact ih (by omega) acc
    | inr a => rfl

/-- One sector. -/
lemma scanEntries_sector (visit : ℕ → Bytes → ℕ → γ → γ ⊕ α) (j : ℕ) (acc : γ) :
    scanEntries (visit (fs.dataStartLba + j) (sectorAt v j)) 16 acc =
      search (entryStep fs v visit) (sectorSlots j) acc := by
  rw [scanEntries_eq _ le_rfl, search_map, sectorSlots, search_map, Nat.sub_self,
    ← List.range_eq_range']
  refine search_congr (fun e he acc => ?_) acc
  have he' := List.mem_range.mp he
  have hdiv : (j * 512 + e * 32) / 512 = j := by omega
  have hmod : (j * 512 + e * 32) % 512 = e * 32 := by omega
  rw [entryStep, hdiv, hmod]

/-- One cluster. -/
lemma wp_sectorWalk (hl : Layout fs) (onFail : α) (visit : ℕ → Bytes → ℕ → γ → γ ⊕ α) {c : ℕ}
    (hc : InRange fs c) (acc : γ) :
    (fat32View fs).wp (sectorWalk fs onFail (fun lba buf => scanEntries (visit lba buf) 16)
        (clusterToLba fs c) acc)
      (fun r v' => v' = v ∧ r = search (entryStep fs v visit) (clusterSlots fs c) acc) v := by
  rw [clusterToLba_eq hl hc]
  -- the loop is at sector `s`, and the rest of the search is still to be done
  refine View.wp_iter (fun p v' => v' = v ∧ p.1 ≤ fs.sectorsPerCluster ∧
      search (entryStep fs v visit) (clusterSlots fs c) acc =
        search (entryStep fs v visit)
          ((List.range' p.1 (fs.sectorsPerCluster - p.1)).flatMap fun s =>
            sectorSlots ((c - 2) * fs.sectorsPerCluster + s)) p.2)
    (fun p _ => fs.sectorsPerCluster - p.1) ?_ ?_ ?_
  · rintro ⟨s, acc'⟩ _ ⟨rfl, hs, hrest⟩
    simp only at hs hrest
    refine View.wp_ite (fun hlt => ?_) (fun hge => View.wp_pure ?_)
    · simp only [Nat.add_assoc]
      refine View.wp_bind (wp_readData _ 1 (by decide)) ?_
      rintro _ _ ⟨rfl, rfl⟩
      have hsplit : fs.sectorsPerCluster - s = fs.sectorsPerCluster - (s + 1) + 1 := by omega
      rw [hsplit, List.range'_succ, List.flatMap_cons, search_append,
        ← scanEntries_sector] at hrest
      have hsector : ∀ (w : Volume) (j : ℕ),
          Bytes.clip (1 * 512) (Bytes.shift w.data (j * 512)) = sectorAt w j := fun _ _ => rfl
      rw [hsector]
      dsimp only
      cases hscan : scanEntries (visit (fs.dataStartLba + ((c - 2) * fs.sectorsPerCluster + s))
          (sectorAt _ ((c - 2) * fs.sectorsPerCluster + s))) 16 acc' with
      | inl acc'' =>
        rw [hscan] at hrest
        exact View.wp_pure ⟨⟨rfl, hlt, hrest⟩, by simp only; omega⟩
      | inr a =>
        rw [hscan] at hrest
        exact View.wp_pure ⟨rfl, hrest.symm⟩
    · have hdone : fs.sectorsPerCluster - s = 0 := by omega
      rw [hdone] at hrest
      exact ⟨rfl, hrest.symm⟩
  · exact ⟨rfl, Nat.zero_le _, by rw [Nat.sub_zero, ← List.range_eq_range']; rfl⟩
  · have := hl.spc_le
    unfold fat32MaxClusterSectors at this
    unfold loopFuel
    omega

/-- A whole directory. -/
lemma wp_dirWalk (hl : Layout fs) (onFail : α) (visit : ℕ → Bytes → ℕ → γ → γ ⊕ α) {d : ℕ}
    {l : List ℕ} (hchain : ChainAt fs v.fat d l) (acc : γ) :
    (fat32View fs).wp (dirWalk fs onFail (fun lba buf => scanEntries (visit lba buf) 16) acc d)
      (fun r v' => v' = v ∧ r =
        match search (entryStep fs v visit) (dirSlots fs l) acc with
        | .inl _ => .inl (l.getLastD d)
        | .inr a => .inr a) v := by
  -- the loop is at the first cluster of the rest `l'` of the chain
  refine View.wp_iter_rounds (fun k p v' => v' = v ∧ ∃ l', l'.length = k ∧
      ChainAt fs v.fat p.1 l' ∧
      (match search (entryStep fs v visit) (dirSlots fs l) acc with
        | .inl _ => (.inl (l.getLastD d) : ℕ ⊕ α)
        | .inr a => .inr a) =
      match search (entryStep fs v visit) (dirSlots fs l') p.2.2 with
        | .inl _ => .inl (l'.getLastD p.2.1)
        | .inr a => .inr a) ?_ ⟨rfl, l, rfl, hchain, rfl⟩ ?_
  · rintro k ⟨cluster, last, acc'⟩ _ ⟨rfl, l', rfl, hchain', hrest⟩
    simp only at hchain' hrest
    rw [hrest]
    cases l' with
    | nil =>
      have hends : ¬ cluster < fat32Eoc := Nat.not_lt.mpr hchain'
      exact View.wp_ite (fun h => absurd h hends) (fun _ => View.wp_pure ⟨rfl, rfl⟩)
    | cons c l' =>
      obtain ⟨rfl, hc, htail⟩ := hchain'
      have hlive : c < fat32Eoc := Nat.not_le.mp (hc.not_ends hl)
      refine View.wp_ite (fun _ => ?_) (fun h => absurd hlive h)
      refine View.wp_bind (wp_sectorWalk hl onFail visit hc acc') ?_
      rintro r v ⟨rfl, rfl⟩
      rw [dirSlots, List.flatMap_cons, search_append, ← dirSlots]
      cases search (entryStep fs v visit) (clusterSlots fs c) acc' with
      | inr a => exact View.wp_pure ⟨rfl, rfl⟩
      | inl acc'' =>
        refine View.wp_bind (wp_next hl hc.lt) ?_
        rintro _ v ⟨rfl, rfl⟩
        refine View.wp_pure ⟨l'.length, Nat.lt_succ_self _, rfl, l', rfl, htail, ?_⟩
        cases l' <;> rfl
  · have hlen := hchain.length_le hl
    have := hl.lt_loopFuel
    omega

/-! ## Looking a name up -/

/-- What `fat32_finddir` does at an entry. -/
def findStep (name : List UInt8) (lba : ℕ) (buf : Bytes) (off : ℕ) (_ : Unit) :
    Unit ⊕ Option EntryAt :=
  match fat32EntryValid buf off with
  | .endOfDir => .inr none
  | .skip => .inl ()
  | .valid =>
    if fat32Strcasecmp (fat32Format83 buf off) name ≠ 0 then .inl ()
    else .inr (some ⟨lba, off, buf⟩)

/-- The entry with the address `a`, as a walk finds it. -/
def entryAt (fs : Fat32Fs) (v : Volume) (a : ℕ) : EntryAt :=
  ⟨fs.dataStartLba + a / 512, a % 512, sectorAt v (a / 512)⟩

/-- The name of the entry with the address `a` is `name`, up to the case of letters. -/
def Named (v : Volume) (a : ℕ) (name : List UInt8) : Prop :=
  fat32Strcasecmp (fat32Format83 v.data a) name = 0

instance (v : Volume) (a : ℕ) (name : List UInt8) : Decidable (Named v a name) :=
  inferInstanceAs (Decidable (_ = _))

/-- What looking up a name in a directory with the clusters `l` finds. -/
def lookupEntry (fs : Fat32Fs) (v : Volume) (l : List ℕ) (name : List UInt8) : Option EntryAt :=
  match search (entryStep fs v (findStep name)) (dirSlots fs l) () with
  | .inl _ => none
  | .inr r => r

/-- The entry in its sector is the entry in the data area. -/
lemma sectorAt_entry (v : Volume) {a : ℕ} (ha : 32 ∣ a) :
    ∀ i < 32, sectorAt v (a / 512) (a % 512 + i) = v.data (a + i) := by
  intro i hi
  rw [sectorAt, Bytes.clip_of_lt (by omega), Bytes.shift]
  congr 1
  omega

/-- What the driver reads of the entry. -/
lemma entryAt_spec (fs : Fat32Fs) (v : Volume) {a : ℕ} (ha : 32 ∣ a) :
    deIsDir (entryAt fs v a).buf (entryAt fs v a).off = deIsDir v.data a ∧
      deCluster (entryAt fs v a).buf (entryAt fs v a).off = deCluster v.data a ∧
      deSize (entryAt fs v a).buf (entryAt fs v a).off = deSize v.data a := by
  obtain ⟨-, hdir, hcluster, hsize, -⟩ := entry_congr (sectorAt_entry v ha)
  exact ⟨hdir, hcluster, hsize⟩

lemma findStep_eq (fs : Fat32Fs) (v : Volume) (name : List UInt8) {a : ℕ} (ha : 32 ∣ a) :
    entryStep fs v (findStep name) a () =
      match fat32EntryValid v.data a with
      | .endOfDir => .inr none
      | .skip => .inl ()
      | .valid => if Named v a name then .inr (some (entryAt fs v a)) else .inl () := by
  obtain ⟨hvalid, -, -, -, hname⟩ := entry_congr (sectorAt_entry v ha)
  rw [entryStep, findStep, hvalid]
  cases fat32EntryValid v.data a with
  | endOfDir => rfl
  | skip => rfl
  | valid =>
    simp only [hname, Named, ne_eq, ite_not]
    rfl

/-- The end of a directory is marked by a zero byte. -/
lemma endOfDir_iff {d : Bytes} {a : ℕ} : fat32EntryValid d a = .endOfDir ↔ d a = 0 := by
  rw [fat32EntryValid]
  split_ifs with h <;> simp [h]

/-- A valid entry with the name `name`, up to the case of letters. -/
def CalledBy (b : Bytes) (a : ℕ) (name : List UInt8) : Prop :=
  Valid b a ∧ fat32Strcasecmp (fat32Format83 b a) name = 0

instance (b : Bytes) (a : ℕ) (name : List UInt8) : Decidable (CalledBy b a name) :=
  inferInstanceAs (Decidable (fat32EntryValid b a = .valid ∧ _))

lemma calledBy_congr {d d' : Bytes} {a a' : ℕ} {name : List UInt8}
    (h : ∀ i < 32, d' (a' + i) = d (a + i)) : CalledBy d' a' name ↔ CalledBy d a name := by
  obtain ⟨hvalid, -, -, -, hname⟩ := entry_congr h
  rw [CalledBy, CalledBy, Valid, Valid, hvalid, hname]

/-- The first entry with the name, in front of the end mark. -/
def lookupSlot (fs : Fat32Fs) (v : Volume) (l : List ℕ) (name : List UInt8) : Option ℕ :=
  ((dirSlots fs l).takeWhile fun a => v.data a ≠ 0).find? fun a => CalledBy v.data a name

lemma lookupEntry_eq (hl : Layout fs) (v : Volume) (l : List ℕ) (name : List UInt8) :
    lookupEntry fs v l name = (lookupSlot fs v l name).map (entryAt fs v) := by
  have hdvd : ∀ a ∈ dirSlots fs l, 32 ∣ a := by
    intro a ha
    obtain ⟨k, -, rfl⟩ := (mem_dirSlots hl).mp ha
    exact slotAt_dvd fs l k
  rw [lookupEntry, lookupSlot]
  generalize dirSlots fs l = slots at hdvd
  induction slots with
  | nil => rfl
  | cons a slots ih =>
    have hrest := ih fun b hb => hdvd b (List.mem_cons_of_mem _ hb)
    rw [search, findStep_eq fs v name (hdvd a List.mem_cons_self)]
    cases hkind : fat32EntryValid v.data a with
    | endOfDir =>
      have h0 : v.data a = 0 := endOfDir_iff.mp hkind
      rw [List.takeWhile_cons_of_neg (by simpa using h0)]
      rfl
    | skip =>
      have h0 : v.data a ≠ 0 := fun h => by simp [endOfDir_iff.mpr h] at hkind
      have hno : ¬CalledBy v.data a name := fun h => absurd (h.1.symm.trans hkind) (by decide)
      rw [List.takeWhile_cons_of_pos (by simpa using h0),
        List.find?_cons_of_neg (by simpa using hno)]
      exact hrest
    | valid =>
      have h0 : v.data a ≠ 0 := fun h => by simp [endOfDir_iff.mpr h] at hkind
      rw [List.takeWhile_cons_of_pos (by simpa using h0)]
      by_cases hname : Named v a name
      · have hcalled : CalledBy v.data a name := ⟨hkind, hname⟩
        rw [List.find?_cons_of_pos (by simpa using hcalled)]
        simp only [if_pos hname]
        rfl
      · have hno : ¬CalledBy v.data a name := fun h => hname h.2
        rw [List.find?_cons_of_neg (by simpa using hno)]
        simp only [if_neg hname]
        exact hrest

/-- Behind the end mark there are only end marks. -/
lemma ended_pairwise (hl : Layout fs) {l : List ℕ}
    (hended : ∀ k k', k ≤ k' → SlotIn fs l k' → v.data (slotAt fs l k) = 0 →
      v.data (slotAt fs l k') = 0) :
    (dirSlots fs l).Pairwise fun a b => v.data a = 0 → v.data b = 0 := by
  rw [dirSlots_eq hl, List.pairwise_map]
  refine List.Pairwise.imp_of_mem ?_ (List.pairwise_lt_range)
  intro i j _ hj hij
  refine hended i j hij.le ?_
  have hj' := List.mem_range.mp hj
  rw [SlotIn, clusterSize_eq]
  nlinarith

/-- A name that is not found is the name of no entry. -/
lemma not_calledBy_of_lookupSlot (hl : Layout fs) {l : List ℕ} {name : List UInt8}
    (hended : ∀ k k', k ≤ k' → SlotIn fs l k' → v.data (slotAt fs l k) = 0 →
      v.data (slotAt fs l k') = 0)
    (hnone : lookupSlot fs v l name = none) : ∀ a ∈ dirSlots fs l, ¬CalledBy v.data a name := by
  intro a ha hcalled
  have hpair : (dirSlots fs l).Pairwise fun a b =>
      decide (v.data a ≠ 0) = false → decide (v.data b ≠ 0) = false := by
    refine (ended_pairwise hl hended).imp fun hab => ?_
    simpa using hab
  have hmem := mem_takeWhile_of_pairwise hpair ha (by simpa using hcalled.1.marks.1)
  exact List.find?_eq_none.mp hnone a hmem (by simpa using hcalled)

/-- What is found is a valid entry of the directory with that name. -/
lemma exists_of_lookupEntry (hl : Layout fs) {l : List ℕ} {name : List UInt8} {e : EntryAt}
    (h : lookupEntry fs v l name = some e) :
    ∃ k, SlotIn fs l k ∧ e = entryAt fs v (slotAt fs l k) ∧ Valid v.data (slotAt fs l k) ∧
      Named v (slotAt fs l k) name := by
  rw [lookupEntry] at h
  cases hsearch : search (entryStep fs v (findStep name)) (dirSlots fs l) () with
  | inl u =>
    rw [hsearch] at h
    cases h
  | inr r =>
    rw [hsearch] at h
    obtain rfl : r = some e := h
    obtain ⟨a, ha, u, hstep⟩ := exists_of_search hsearch
    obtain ⟨k, hk, rfl⟩ := (mem_dirSlots hl).mp ha
    rw [findStep_eq fs v name (slotAt_dvd fs l k)] at hstep
    refine ⟨k, hk, ?_⟩
    cases hvalid : fat32EntryValid v.data (slotAt fs l k) with
    | endOfDir => simp [hvalid] at hstep
    | skip => simp [hvalid] at hstep
    | valid =>
      simp only [hvalid] at hstep
      split_ifs at hstep with hname
      obtain rfl : entryAt fs v (slotAt fs l k) = e := by simpa using hstep
      exact ⟨rfl, hvalid, hname⟩

/-- A directory starts with two entries. -/
lemma dirSlots_cons (hl : Layout fs) (c : ℕ) (l : List ℕ) :
    ∃ rest, dirSlots fs (c :: l) = clusterOff fs c :: (clusterOff fs c + 32) :: rest := by
  obtain ⟨n, hn⟩ := Nat.exists_eq_add_of_le (show 2 ≤ 16 * fs.sectorsPerCluster by
    have := hl.spc_pos
    omega)
  rw [dirSlots, List.flatMap_cons, clusterSlots_eq, hn, Nat.add_comm, List.range_succ_eq_map,
    List.range_succ_eq_map]
  exact ⟨_, rfl⟩

/-- Looking up the name of the first entry. -/
lemma lookupEntry_first (hl : Layout fs) {c : ℕ} {l : List ℕ} {name : List UInt8}
    (hvalid : Valid v.data (clusterOff fs c)) (hname : Named v (clusterOff fs c) name) :
    lookupEntry fs v (c :: l) name = some (entryAt fs v (clusterOff fs c)) := by
  obtain ⟨rest, hslots⟩ := dirSlots_cons hl c l
  have hdvd : 32 ∣ clusterOff fs c := by
    rw [clusterOff_eq]
    exact Dvd.dvd.mul_left (by decide) _
  rw [lookupEntry, hslots, search, findStep_eq fs v name hdvd, hvalid]
  simp only [if_pos hname]

/-- Looking up the name of the second one, when the first has another name. -/
lemma lookupEntry_second (hl : Layout fs) {c : ℕ} {l : List ℕ} {name : List UInt8}
    (hvalid : Valid v.data (clusterOff fs c)) (hname : ¬ Named v (clusterOff fs c) name)
    (hvalid' : Valid v.data (clusterOff fs c + 32)) (hname' : Named v (clusterOff fs c + 32) name) :
    lookupEntry fs v (c :: l) name = some (entryAt fs v (clusterOff fs c + 32)) := by
  obtain ⟨rest, hslots⟩ := dirSlots_cons hl c l
  have hdvd : 32 ∣ clusterOff fs c := by
    rw [clusterOff_eq]
    exact Dvd.dvd.mul_left (by decide) _
  rw [lookupEntry, hslots, search, findStep_eq fs v name hdvd, hvalid]
  simp only [if_neg hname]
  rw [search, findStep_eq fs v name (Nat.dvd_add hdvd (by decide)), hvalid']
  simp only [if_pos hname']

/-- The walk of `fat32_finddir`. -/
lemma wp_lookupWalk (hl : Layout fs) {d : ℕ} {l : List ℕ} (hchain : ChainAt fs v.fat d l)
    (name : List UInt8) :
    (fat32View fs).wp (dirWalk fs none (fun lba buf _ => finddirVisit name lba buf) () d)
      (fun r v' => v' = v ∧ r.elim (fun _ => none) id = lookupEntry fs v l name) v := by
  refine View.wp_mono (wp_dirWalk hl none (findStep name) hchain ()) ?_
  rintro _ v ⟨rfl, rfl⟩
  rw [lookupEntry]
  cases search (entryStep fs v (findStep name)) (dirSlots fs l) () with
  | inl u => exact ⟨rfl, rfl⟩
  | inr r => exact ⟨rfl, rfl⟩

/-- `fat32_finddir` makes a node of what is found, if there is one left. -/
lemma wp_finddir (hl : Layout fs) {node : ℕ} {l : List ℕ} (hfs : (v.nodes node).fi.fs = fs)
    (hchain : ChainAt fs v.fat (v.nodes node).inode l) (name : List UInt8) :
    (fat32View fs).wp (fat32Finddir node name) (fun r v' =>
      match lookupEntry fs v l name with
      | none => r = none ∧ v' = v
      | some e =>
        if maxVfsNodes ≤ v.used then r = none ∧ v' = v
        else r = some v.used ∧ v' = { v with
          nodes := Function.update v.nodes v.used (nodeOfEntry fs node e), used :=
          v.used + 1 }) v := by
  refine View.wp_get fun s _ hs => ?_
  have hnodes : s.nodePool = v.nodes := congrArg Volume.nodes hs
  simp only [hnodes, hfs]
  refine View.wp_bind (wp_lookupWalk hl hchain name) ?_
  rintro r v ⟨rfl, hr⟩
  rw [← hr]
  cases r with
  | inl last => exact View.wp_pure ⟨rfl, rfl⟩
  | inr r =>
    cases r with
    | none => exact View.wp_pure ⟨rfl, rfl⟩
    | some e => exact wp_allocNode _

/-! ## Listing -/

/-- What `fat32_readdir` does at an entry. -/
def listStep (index : ℕ) (_ : ℕ) (buf : Bytes) (off validCount : ℕ) : ℕ ⊕ Option Dirent :=
  match fat32EntryValid buf off with
  | .endOfDir => .inr none
  | .skip => .inl validCount
  | .valid =>
    if validCount = index then
      .inr (some ⟨fat32Format83 buf off, deSize buf off,
        if deIsDir buf off then .directory else .file⟩)
    else .inl (validCount + 1)

/-- The entry number `index` of a directory with the clusters `l`. -/
def listEntry (fs : Fat32Fs) (v : Volume) (l : List ℕ) (index : ℕ) : Option Dirent :=
  match search (entryStep fs v (listStep index)) (dirSlots fs l) 0 with
  | .inl _ => none
  | .inr r => r

lemma listStep_eq (fs : Fat32Fs) (v : Volume) (index : ℕ) {a : ℕ} (ha : 32 ∣ a) (n : ℕ) :
    entryStep fs v (listStep index) a n =
      match fat32EntryValid v.data a with
      | .endOfDir => .inr none
      | .skip => .inl n
      | .valid =>
        if n = index then
          .inr (some ⟨fat32Format83 v.data a, deSize v.data a,
            if deIsDir v.data a then .directory else .file⟩)
        else .inl (n + 1) := by
  obtain ⟨hvalid, hdir, -, hsize, hname⟩ := entry_congr (sectorAt_entry v ha)
  rw [entryStep, listStep, hvalid, hdir, hsize, hname]

/-- A directory with a valid entry is not listed as an empty one. -/
lemma exists_listEntry (hl : Layout fs) {l : List ℕ}
    (hended : ∀ k k', k ≤ k' → SlotIn fs l k' → v.data (slotAt fs l k) = 0 →
      v.data (slotAt fs l k') = 0)
    {k : ℕ} (hk : SlotIn fs l k) (hvalid : Valid v.data (slotAt fs l k)) :
    ∃ de, listEntry fs v l 0 = some de := by
  have hmem : slotAt fs l k ∈ dirSlots fs l := (mem_dirSlots hl).mpr ⟨k, hk, rfl⟩
  have hdvd : ∀ a ∈ dirSlots fs l, 32 ∣ a := by
    intro a ha
    obtain ⟨j, -, rfl⟩ := (mem_dirSlots hl).mp ha
    exact slotAt_dvd fs l j
  have hpair := ended_pairwise hl hended
  rw [listEntry]
  generalize dirSlots fs l = slots at hmem hdvd hpair
  induction slots with
  | nil => cases hmem
  | cons a slots ih =>
    rw [search, listStep_eq fs v 0 (hdvd a List.mem_cons_self)]
    obtain ⟨hhead, htail⟩ := List.pairwise_cons.mp hpair
    cases hkind : fat32EntryValid v.data a with
    | valid => exact ⟨_, rfl⟩
    | endOfDir =>
      exfalso
      rcases List.mem_cons.mp hmem with heq | hin
      · rw [Valid, heq, hkind] at hvalid
        cases hvalid
      · exact hvalid.marks.1 (hhead _ hin (endOfDir_iff.mp hkind))
    | skip =>
      rcases List.mem_cons.mp hmem with heq | hin
      · rw [Valid, heq, hkind] at hvalid
        cases hvalid
      · exact ih hin (fun b hb => hdvd b (List.mem_cons_of_mem _ hb)) htail

/-- `fat32_readdir`, by the first cluster of the directory. -/
def readdirAt (fs : Fat32Fs) (cluster index : ℕ) : Program Fat32State (Option Dirent) := do
  match ← dirWalk fs none (fun _ buf c => readdirVisit index buf c) 0 cluster with
  | .inr r => return r
  | .inl _ => return none

lemma fat32Readdir_eq (node index : ℕ) : fat32Readdir node index = (do
    let s ← get
    readdirAt (s.nodePool node).fi.fs (s.nodePool node).inode index) := rfl

lemma wp_readdirAt (hl : Layout fs) {d : ℕ} {l : List ℕ} (hchain : ChainAt fs v.fat d l)
    (index : ℕ) :
    (fat32View fs).wp (readdirAt fs d index)
      (fun r v' => v' = v ∧ r = listEntry fs v l index) v := by
  refine View.wp_bind (wp_dirWalk hl none (listStep index) hchain 0) ?_
  rintro r v ⟨rfl, rfl⟩
  rw [listEntry]
  cases search (entryStep fs v (listStep index)) (dirSlots fs l) 0 with
  | inl n => exact View.wp_pure ⟨rfl, rfl⟩
  | inr r => exact View.wp_pure ⟨rfl, rfl⟩

/-! ## Cluster 0 -/

/-- What `cluster_to_lba` makes of cluster 0 lies behind all clusters; it starts with a zero
byte. -/
def EmptyBeyond (fs : Fat32Fs) (v : Volume) : Prop :=
  v.data ((2 ^ 32 - 2) * fs.sectorsPerCluster * 512) = 0

/-- A walk from cluster 0 is over at the first entry. -/
lemma wp_dirWalk_zero (hl : Layout fs) (hempty : EmptyBeyond fs v)
    (visit : ℕ → Bytes → ℕ → γ → γ ⊕ Option α) (acc : γ)
    (hend : ∀ lba buf off acc, fat32EntryValid buf off = .endOfDir →
      visit lba buf off acc = .inr none) :
    (fat32View fs).wp (dirWalk fs none (fun lba buf => scanEntries (visit lba buf) 16) acc 0)
      (fun r v' => v' = v ∧ r = .inr none) v := by
  have hlba : clusterToLba fs 0 = fs.dataStartLba + (2 ^ 32 - 2) * fs.sectorsPerCluster := rfl
  rw [EmptyBeyond] at hempty
  generalize (2 ^ 32 - 2) * fs.sectorsPerCluster = j at hlba hempty
  have hfirst : fat32EntryValid (sectorAt v j) 0 = .endOfDir := by
    rw [endOfDir_iff, sectorAt, Bytes.clip_of_lt (by decide), Bytes.shift, Nat.add_zero]
    exact hempty
  have hscan : scanEntries (visit (fs.dataStartLba + j) (sectorAt v j)) 16 acc = .inr none := by
    rw [scanEntries, show (16 - (15 + 1)) * 32 = 0 from rfl, hend _ _ _ _ hfirst]
  have hsector : (fat32View fs).wp (sectorWalk fs none
      (fun lba buf => scanEntries (visit lba buf) 16) (clusterToLba fs 0) acc)
      (fun r v' => v' = v ∧ r = .inr none) v := by
    refine View.wp_iter (fun p v' => v' = v ∧ p = (0, acc)) (fun _ _ => 0) ?_ ⟨rfl, rfl⟩ (by decide)
    rintro _ _ ⟨rfl, rfl⟩
    refine View.wp_ite (fun _ => ?_) (fun h => absurd hl.spc_pos h)
    rw [hlba, Nat.add_zero]
    refine View.wp_bind (wp_readData j 1 (by decide)) ?_
    rintro _ v ⟨rfl, rfl⟩
    have hbuf : Bytes.clip (1 * 512) (Bytes.shift v.data (j * 512)) = sectorAt v j := rfl
    simp only [hbuf, hscan]
    exact View.wp_pure ⟨rfl, rfl⟩
  refine View.wp_iter (fun p v' => v' = v ∧ p = (0, 0, acc)) (fun _ _ => 0) ?_
    ⟨rfl, rfl⟩ (by decide)
  rintro _ _ ⟨rfl, rfl⟩
  refine View.wp_ite (fun _ => View.wp_bind hsector ?_) (fun h => absurd (by decide) h)
  rintro _ v ⟨rfl, rfl⟩
  exact View.wp_pure ⟨rfl, rfl⟩

end Fat32

end CoolFrost

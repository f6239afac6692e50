import CoolFrost.Fs.Ext2.Growth

/-!
# ext2: the counters of free blocks

The counter of a group says how many of its blocks are not in use, and that of the superblock how
many blocks of the volume are not.  Taking a run of free blocks and giving back blocks in use keeps
this.
-/

namespace CoolFrost

open Program

namespace Ext2

variable {fs : Ext2Fs} {p : Plan} {v : Vol} {g start len : ℕ} {l : List ℕ}

/-- The blocks of a group that are not in use. -/
def unusedIn (fs : Ext2Fs) (v : Vol) (g : ℕ) : Finset ℕ :=
  (Finset.range fs.blocksCount).filter fun b =>
    fs.firstDataBlock ≤ b ∧ groupOf fs b = g ∧ v.used b = false

/-- The blocks of the volume that are not in use. -/
def unused (fs : Ext2Fs) (v : Vol) : Finset ℕ :=
  (Finset.range fs.blocksCount).filter fun b => fs.firstDataBlock ≤ b ∧ v.used b = false

lemma mem_unusedIn {b : ℕ} :
    b ∈ unusedIn fs v g ↔ InVolume fs b ∧ groupOf fs b = g ∧ v.used b = false := by
  rw [unusedIn, Finset.mem_filter, Finset.mem_range, InVolume]
  exact ⟨fun h => ⟨⟨h.2.1, h.1⟩, h.2.2⟩, fun h => ⟨h.1.2, h.1.1, h.2⟩⟩

lemma mem_unused {b : ℕ} : b ∈ unused fs v ↔ InVolume fs b ∧ v.used b = false := by
  rw [unused, Finset.mem_filter, Finset.mem_range, InVolume]
  exact ⟨fun h => ⟨⟨h.2.1, h.1⟩, h.2.2⟩, fun h => ⟨h.1.2, h.1.1, h.2⟩⟩

/-- The counters of free blocks are right. -/
structure Consistent (fs : Ext2Fs) (v : Vol) : Prop where
  free : ∀ g < fs.groupsCount, v.free g = (unusedIn fs v g).card
  total : v.total = (unused fs v).card

/-- A free block is counted. -/
lemma Consistent.counted (hl : Layout fs) (h : Consistent fs v) {b : ℕ} (hb : InVolume fs b)
    (hu : v.used b = false) : v.free (groupOf fs b) ≠ 0 ∧ v.total ≠ 0 := by
  rw [h.free _ (groupIn_groupOf hl hb).1, h.total]
  exact ⟨Finset.card_ne_zero_of_mem (mem_unusedIn.mpr ⟨hb, rfl, hu⟩),
    Finset.card_ne_zero_of_mem (mem_unused.mpr ⟨hb, hu⟩)⟩

/-- A group has at most as many free blocks as its bitmap has bits. -/
lemma card_unusedIn_le (hl : Layout fs) : (unusedIn fs v g).card ≤ fs.blocksPerGroup := by
  rw [← Finset.card_range fs.blocksPerGroup]
  refine Finset.card_le_card_of_injOn (bitOf fs) (fun b _ => ?_) fun b hb b' hb' heq => ?_
  · exact Finset.mem_coe.mpr (Finset.mem_range.mpr (bitOf_lt hl b))
  · obtain ⟨hin, hg, -⟩ := mem_unusedIn.mp (Finset.mem_coe.mp hb)
    obtain ⟨hin', hg', -⟩ := mem_unusedIn.mp (Finset.mem_coe.mp hb')
    rw [← blockNo_groupOf hin, ← blockNo_groupOf hin', hg, hg', heq]

lemma blocksPerGroup_lt (hl : Layout fs) : fs.blocksPerGroup < 65536 := by
  have hbs := hl.blockSize_le
  have hper := hl.blocksPerGroup.2
  omega

lemma card_unused_lt (hl : Layout fs) : (unused fs v).card < 2 ^ 32 := by
  have hle : (unused fs v).card ≤ (Finset.range fs.blocksCount).card :=
    Finset.card_le_card (Finset.filter_subset _ _)
  rw [Finset.card_range] at hle
  exact hle.trans_lt (hl.blocksCount.trans_lt hl.blocks)

/-- The blocks from `start` on can be taken as a run of the group `g`. -/
def FreeRun (fs : Ext2Fs) (v : Vol) (g start len : ℕ) : Prop :=
  ∀ i < len, InVolume fs (start + i) ∧ v.used (start + i) = false ∧ groupOf fs (start + i) = g

instance (fs : Ext2Fs) (v : Vol) (g start len : ℕ) : Decidable (FreeRun fs v g start len) :=
  inferInstanceAs (Decidable (∀ i < len, _))

lemma FreeRun.mem (h : FreeRun fs v g start len) {b : ℕ} (hb : start ≤ b ∧ b < start + len) :
    InVolume fs b ∧ v.used b = false ∧ groupOf fs b = g := by
  have hb' := h (b - start) (by omega)
  rwa [Nat.add_sub_cancel' hb.1] at hb'

lemma used_takeRun {b : ℕ} : (v.takeRun g start len).used b = false ↔
    v.used b = false ∧ ¬(start ≤ b ∧ b < start + len) := by
  simp only [Vol.takeRun]
  split_ifs with h
  · simp [h]
  · exact ⟨fun hu => ⟨hu, h⟩, fun hu => hu.1⟩

lemma unusedIn_takeRun (g' : ℕ) : unusedIn fs (v.takeRun g start len) g' =
    unusedIn fs v g' \ Finset.Ico start (start + len) := by
  ext b
  rw [Finset.mem_sdiff, mem_unusedIn, mem_unusedIn, used_takeRun, Finset.mem_Ico]
  tauto

lemma unused_takeRun : unused fs (v.takeRun g start len) =
    unused fs v \ Finset.Ico start (start + len) := by
  ext b
  rw [Finset.mem_sdiff, mem_unused, mem_unused, used_takeRun, Finset.mem_Ico]
  tauto

lemma card_sdiff_run {s : Finset ℕ} (h : Finset.Ico start (start + len) ⊆ s) :
    len ≤ s.card ∧ (s \ Finset.Ico start (start + len)).card = s.card - len := by
  have hcard : (Finset.Ico start (start + len)).card = len := by
    rw [Nat.card_Ico]
    omega
  have hle := Finset.card_le_card h
  rw [Finset.card_sdiff_of_subset h, hcard]
  exact ⟨hcard ▸ hle, rfl⟩

/-- Taking a run of free blocks keeps the counters right. -/
lemma Consistent.takeRun (hl : Layout fs) (h : Consistent fs v) (hg : g < fs.groupsCount)
    (hrun : FreeRun fs v g start len) : Consistent fs (v.takeRun g start len) := by
  constructor
  case free =>
    intro g' hg'
    rw [unusedIn_takeRun]
    simp only [Vol.takeRun]
    by_cases heq : g' = g
    · have hsub : Finset.Ico start (start + len) ⊆ unusedIn fs v g := fun b hb => by
        obtain ⟨hin, hused, hgb⟩ := hrun.mem (Finset.mem_Ico.mp hb)
        exact mem_unusedIn.mpr ⟨hin, hgb, hused⟩
      obtain ⟨hle, hcard⟩ := card_sdiff_run hsub
      have hmax := (card_unusedIn_le (v := v) (g := g) hl).trans_lt (blocksPerGroup_lt hl)
      rw [heq, Function.update_self, hcard, h.free g hg, u16add]
      omega
    · rw [Function.update_of_ne heq, h.free g' hg', Finset.sdiff_eq_self_of_disjoint]
      refine Finset.disjoint_right.mpr fun b hb hb' => heq ?_
      rw [← (mem_unusedIn.mp hb').2.1, (hrun.mem (Finset.mem_Ico.mp hb)).2.2]
  case total =>
    have hsub : Finset.Ico start (start + len) ⊆ unused fs v := fun b hb => by
      obtain ⟨hin, hused, -⟩ := hrun.mem (Finset.mem_Ico.mp hb)
      exact mem_unused.mpr ⟨hin, hused⟩
    obtain ⟨hle, hcard⟩ := card_sdiff_run hsub
    have hmax := card_unused_lt (v := v) hl
    rw [unused_takeRun, hcard]
    simp only [Vol.takeRun]
    rw [h.total, u32add]
    omega

lemma used_give {b b' : ℕ} :
    (v.give fs b).used b' = false ↔ b' = b ∨ v.used b' = false := by
  simp only [Vol.give]
  by_cases h : b' = b
  · simp [h]
  · simp [h]

/-- Giving back a block in use keeps the counters right. -/
lemma Consistent.give (hl : Layout fs) (h : Consistent fs v) {b : ℕ} (hb : InVolume fs b)
    (hu : v.used b = true) : Consistent fs (v.give fs b) := by
  have hnot : b ∉ unused fs v := fun hmem => by
    have := (mem_unused.mp hmem).2
    rw [hu] at this
    cases this
  constructor
  case free =>
    intro g hg
    by_cases heq : g = groupOf fs b
    · have hset : unusedIn fs (v.give fs b) g = insert b (unusedIn fs v g) := by
        ext b'
        rw [Finset.mem_insert, mem_unusedIn, mem_unusedIn, used_give]
        constructor
        · rintro ⟨hin, hgb, rfl | hused⟩
          · exact .inl rfl
          · exact .inr ⟨hin, hgb, hused⟩
        · rintro (rfl | ⟨hin, hgb, hused⟩)
          · exact ⟨hb, heq.symm, .inl rfl⟩
          · exact ⟨hin, hgb, .inr hused⟩
      have hnot' : b ∉ unusedIn fs v g := fun hmem =>
        hnot (mem_unused.mpr ⟨(mem_unusedIn.mp hmem).1, (mem_unusedIn.mp hmem).2.2⟩)
      have hmax := (card_unusedIn_le (v := v.give fs b) (g := g) hl).trans_lt (blocksPerGroup_lt hl)
      rw [hset, Finset.card_insert_of_notMem hnot'] at hmax ⊢
      simp only [Vol.give]
      rw [heq, Function.update_self, ← heq, h.free g hg, u16add]
      omega
    · have hset : unusedIn fs (v.give fs b) g = unusedIn fs v g := by
        ext b'
        rw [mem_unusedIn, mem_unusedIn, used_give]
        constructor
        · rintro ⟨hin, hgb, rfl | hused⟩
          · exact absurd hgb.symm heq
          · exact ⟨hin, hgb, hused⟩
        · rintro ⟨hin, hgb, hused⟩
          exact ⟨hin, hgb, .inr hused⟩
      rw [hset]
      simp only [Vol.give]
      rw [Function.update_of_ne heq, h.free g hg]
  case total =>
    have hset : unused fs (v.give fs b) = insert b (unused fs v) := by
      ext b'
      rw [Finset.mem_insert, mem_unused, mem_unused, used_give]
      constructor
      · rintro ⟨hin, rfl | hused⟩
        · exact .inl rfl
        · exact .inr ⟨hin, hused⟩
      · rintro (rfl | ⟨hin, hused⟩)
        · exact ⟨hb, .inl rfl⟩
        · exact ⟨hin, .inr hused⟩
    have hmax := card_unused_lt (v := v.give fs b) hl
    rw [hset, Finset.card_insert_of_notMem hnot] at hmax ⊢
    simp only [Vol.give]
    rw [h.total, u32add]
    omega

/-! ## Lists of blocks -/

/-- The blocks of a list are given back. -/
def Vol.giveAll (fs : Ext2Fs) (l : List ℕ) (v : Vol) : Vol := l.foldl (fun v b => v.give fs b) v

@[simp]
lemma giveAll_nil : v.giveAll fs [] = v := rfl

@[simp]
lemma giveAll_cons (b : ℕ) : v.giveAll fs (b :: l) = (v.give fs b).giveAll fs l := rfl

/-- Giving back blocks changes what is in use, and the counters. -/
lemma giveAll_eq : v.giveAll fs l = { v with
    used := fun b => if b ∈ l then false else v.used b
    free := (v.giveAll fs l).free
    total := (v.giveAll fs l).total } := by
  induction l generalizing v with
  | nil => simp
  | cons b l ih =>
    rw [giveAll_cons, ih]
    refine Vol.ext (funext fun b' => ?_) rfl rfl rfl rfl rfl rfl rfl rfl
    simp only [Vol.give, List.mem_cons]
    by_cases hl : b' ∈ l
    · simp [hl]
    · by_cases hb : b' = b
      · simp [hb]
      · simp [hl, hb]

lemma used_giveAll {b : ℕ} : (v.giveAll fs l).used b = if b ∈ l then false else v.used b := by
  rw [giveAll_eq]

lemma total_giveAll (h : v.total < 2 ^ 32) : (v.giveAll fs l).total = u32add v.total l.length := by
  induction l generalizing v with
  | nil => exact (u32add_zero h).symm
  | cons b l ih =>
    have hlt : (v.give fs b).total < 2 ^ 32 := u32add_lt v.total 1
    rw [giveAll_cons, ih hlt]
    simp only [Vol.give, List.length_cons]
    rw [u32add_add]
    push_cast
    rw [add_comm]

/-- The blocks that are still to be given back are in use. -/
lemma inUse_give {b : ℕ} (hnot : b ∉ l) (h : ∀ b' ∈ b :: l, InVolume fs b' ∧ v.used b' = true) :
    ∀ b' ∈ l, InVolume fs b' ∧ (v.give fs b).used b' = true := by
  intro b' hb'
  obtain ⟨hin, hu⟩ := h b' (List.mem_cons_of_mem _ hb')
  have hne : b' ≠ b := fun heq => hnot (by rwa [← heq])
  refine ⟨hin, ?_⟩
  simp only [Vol.give]
  rw [Function.update_of_ne hne, hu]

lemma Consistent.giveAll (hl : Layout fs) (h : Consistent fs v) (hnd : l.Nodup)
    (hb : ∀ b ∈ l, InVolume fs b ∧ v.used b = true) : Consistent fs (v.giveAll fs l) := by
  induction l generalizing v with
  | nil => exact h
  | cons b l ih =>
    obtain ⟨hnot, hnd⟩ := List.nodup_cons.mp hnd
    obtain ⟨hin, hu⟩ := hb b List.mem_cons_self
    exact ih (h.give hl hin hu) hnd (inUse_give hnot hb)

/-- The counter of a group grows by the number of its blocks that are given back. -/
lemma Consistent.free_giveAll (hl : Layout fs) (h : Consistent fs v) (hnd : l.Nodup)
    (hb : ∀ b ∈ l, InVolume fs b ∧ v.used b = true) (hg : g < fs.groupsCount) :
    (v.giveAll fs l).free g = v.free g + l.countP fun b => groupOf fs b = g := by
  induction l generalizing v with
  | nil => rfl
  | cons b l ih =>
    obtain ⟨hnot, hnd⟩ := List.nodup_cons.mp hnd
    obtain ⟨hin, hu⟩ := hb b List.mem_cons_self
    rw [giveAll_cons, ih (h.give hl hin hu) hnd (inUse_give hnot hb), List.countP_cons]
    simp only [Vol.give]
    by_cases heq : groupOf fs b = g
    · have hper := card_unusedIn_le (v := v) (g := g) hl
      have hbits := hl.blocksPerGroup.2
      have hbs := hl.blockSize_le
      have hinc : u16add (v.free g) 1 = v.free g + 1 := by
        rw [h.free g hg, u16add]
        omega
      rw [heq, Function.update_self, hinc]
      simp only [decide_true, if_true]
      omega
    · rw [Function.update_of_ne (Ne.symm heq)]
      simp [heq]

/-- A free block more. -/
lemma Consistent.total_give (hl : Layout fs) (h : Consistent fs v) {b : ℕ} (hb : InVolume fs b)
    (hu : v.used b = true) : (v.give fs b).total = v.total + 1 := by
  have hafter := (h.give hl hb hu).total
  have hmem : b ∈ unused fs (v.give fs b) := mem_unused.mpr ⟨hb, used_give.mpr (.inl rfl)⟩
  have hpos := Finset.card_pos.mpr ⟨b, hmem⟩
  have hlt : v.total < 2 ^ 32 := h.total.trans_lt (card_unused_lt hl)
  have hsum : (v.give fs b).total = u32add v.total 1 := rfl
  -- a counter that wraps would be 0
  rw [← hafter, hsum] at hpos
  rw [hsum]
  unfold u32add at hpos ⊢
  omega

/-- The counter of the volume grows by the number of the blocks that are given back. -/
lemma Consistent.total_giveAll (hl : Layout fs) (h : Consistent fs v) (hnd : l.Nodup)
    (hb : ∀ b ∈ l, InVolume fs b ∧ v.used b = true) :
    (v.giveAll fs l).total = v.total + l.length := by
  induction l generalizing v with
  | nil => rfl
  | cons b l ih =>
    obtain ⟨hnot, hnd⟩ := List.nodup_cons.mp hnd
    obtain ⟨hin, hu⟩ := hb b List.mem_cons_self
    rw [giveAll_cons, ih (h.give hl hin hu) hnd (inUse_give hnot hb), h.total_give hl hin hu,
      List.length_cons]
    omega

/-- The counter of a group shrinks by the number of its blocks that are taken. -/
lemma Consistent.free_takeRun (hl : Layout fs) (h : Consistent fs v) (hg : g < fs.groupsCount)
    (hrun : FreeRun fs v g start len) (g' : ℕ) :
    (v.takeRun g start len).free g' + (blockRun start len).countP (fun b => groupOf fs b = g') =
      v.free g' := by
  have hgroup : ∀ b ∈ blockRun start len, groupOf fs b = g := fun b hb => by
    obtain ⟨i, hi, rfl⟩ := List.mem_map.mp hb
    exact (hrun i (List.mem_range.mp hi)).2.2
  have hlen : (blockRun start len).length = len := by
    rw [blockRun, List.length_map, List.length_range]
  simp only [Vol.takeRun]
  by_cases heq : g' = g
  · have hsub : Finset.Ico start (start + len) ⊆ unusedIn fs v g := fun b hb => by
      obtain ⟨hin, hused, hgb⟩ := hrun.mem (Finset.mem_Ico.mp hb)
      exact mem_unusedIn.mpr ⟨hin, hgb, hused⟩
    obtain ⟨hle, -⟩ := card_sdiff_run hsub
    have hmax := (card_unusedIn_le (v := v) (g := g) hl).trans_lt (blocksPerGroup_lt hl)
    have hall : (blockRun start len).countP (fun b => groupOf fs b = g') = len := by
      rw [List.countP_eq_length.mpr fun b hb => by simpa [heq] using hgroup b hb, hlen]
    rw [hall, heq, Function.update_self, h.free g hg, u16add]
    omega
  · have hnone : (blockRun start len).countP (fun b => groupOf fs b = g') = 0 :=
      List.countP_eq_zero.mpr fun b hb => by simp [hgroup b hb, Ne.symm heq]
    rw [hnone, Function.update_of_ne heq, Nat.add_zero]

/-- `free_block` for the blocks of a list. -/
lemma vol_freeBlocks (hl : Layout fs) (hp : p.Fits fs) (h : ∀ b ∈ l, InVolume fs b) :
    (volView fs p).wp (freeBlocks fs l) (fun _ v' => v' = v.giveAll fs l) v := by
  induction l generalizing v with
  | nil => exact View.wp_pure rfl
  | cons b l ih =>
    refine View.wp_bind (vol_freeBlock hl hp (h b List.mem_cons_self)) ?_
    rintro _ v' ⟨-, rfl⟩
    exact ih fun b' hb' => h b' (List.mem_cons_of_mem _ hb')

lemma blockRun_succ : blockRun start (len + 1) = start :: blockRun (start + 1) len := by
  unfold blockRun
  rw [List.range_succ_eq_map, List.map_cons, List.map_map, Nat.add_zero]
  refine congrArg _ (List.map_congr_left fun i _ => ?_)
  simp only [Function.comp_apply]
  omega

lemma mem_blockRun {b : ℕ} : b ∈ blockRun start len ↔ start ≤ b ∧ b < start + len := by
  unfold blockRun
  rw [List.mem_map]
  constructor
  · rintro ⟨i, hi, rfl⟩
    have := List.mem_range.mp hi
    omega
  · intro h
    exact ⟨b - start, List.mem_range.mpr (by omega), by omega⟩

/-- The first block of a run that was taken is given back. -/
lemma give_takeRun (hu : v.used start = false) (hg : groupOf fs start = g) :
    (v.takeRun g start (len + 1)).give fs start = v.takeRun g (start + 1) len := by
  refine Vol.ext (funext fun b => ?_) ?_ ?_ rfl rfl rfl rfl rfl rfl
  · simp only [Vol.give, Vol.takeRun]
    by_cases hb : b = start
    · rw [hb, Function.update_self, if_neg (by omega), hu]
    · rw [Function.update_of_ne hb]
      exact if_congr (by omega) rfl rfl
  · simp only [Vol.give, Vol.takeRun, hg, Function.update_self, Function.update_idem, u16add_add]
    congr 2
    push_cast
    ring
  · simp only [Vol.give, Vol.takeRun, u32add_add]
    congr 1
    push_cast
    ring

/-- A run that was taken is given back: the volume is as before. -/
lemma giveAll_takeRun (hv : Bounded v) (hrun : FreeRun fs v g start len) :
    (v.takeRun g start len).giveAll fs (blockRun start len) = v := by
  induction len generalizing start with
  | zero =>
    refine Vol.ext (funext fun b => ?_) ?_ (u32add_zero hv.total) rfl rfl rfl rfl rfl rfl
    · exact if_neg (by omega)
    · exact (congrArg _ (u16add_zero (hv.free g))).trans (Function.update_eq_self g v.free)
  | succ len ih =>
    obtain ⟨-, hu, hg⟩ := hrun 0 (Nat.succ_pos len)
    rw [blockRun_succ, giveAll_cons, give_takeRun (by simpa using hu) (by simpa using hg)]
    refine ih fun i hi => ?_
    have := hrun (i + 1) (by omega)
    rwa [show start + (i + 1) = start + 1 + i by omega] at this

end Ext2

end CoolFrost

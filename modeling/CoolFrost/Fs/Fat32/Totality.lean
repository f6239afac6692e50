import CoolFrost.Lib.Halting
import CoolFrost.Fs.Fat32.FileLimit
import CoolFrost.Fs.Fat32.Coherence

/-!
# FAT32: loops that count

Most loops of the driver count something: copies of the table, sectors of a cluster, clusters of the
volume or of a run, bytes of a transfer.  They end on every drive, whatever the table holds and
whichever transfers fail.  What is left are the loops that only follow the table.
-/

namespace CoolFrost

open Program

namespace Fat32

/-- The fields of a mounted volume are in range.  The allocator's search never leaves its loop over
the clusters when the number of the last one is the largest 32-bit number. -/
structure InBounds (fs : Fat32Fs) : Prop where
  spc_pos : 1 ≤ fs.sectorsPerCluster
  spc_lt : fs.sectorsPerCluster < 256
  copies : 1 ≤ fs.numFats
  copies_lt : fs.numFats < 256
  last : u32 (fs.totalClusters + 1) < 2 ^ 32 - 1

variable {fs : Fat32Fs}

/-- Every loop that counts with a 32-bit number ends before the fuel does. -/
lemma lt_loopFuel {n : ℕ} (h : n < 2 ^ 32) : n < loopFuel := h

/-! ## Transfers and table entries -/

lemma total_read (dr : Drive) (lba n : ℕ) : Total (io (blkRead dr lba n)) :=
  .zoom (.bind .read fun _ => .bind (.change _) fun _ => .ite (.ret _) (.ret _))

lemma total_write (dr : Drive) (lba n : ℕ) (buf : Bytes) : Total (io (blkWrite dr lba n buf)) :=
  .zoom (.bind .read fun _ => .bind (.change _) fun _ => .ret _)

lemma total_writeData (dev : Drive) (lba n : ℕ) (buf : Bytes) : Total (writeData dev lba n buf) :=
  .bind (.change _) fun _ => total_write _ _ _ _

/-- A lookup reads one sector at most. -/
lemma total_next (fs : Fat32Fs) (c : ℕ) : Total (fat32NextCluster fs c) := by
  refine .bind (.change _) fun _ => .bind ?_ fun _ => .ite (.bind .read fun _ => .ret _) (.ret _)
  refine .bind .read fun s => .ite (.ret _) (.bind (total_read _ _ _) fun r => ?_)
  cases r with
  | none => exact .ret _
  | some b => exact .bind (.change _) fun _ => .ret _

/-- One round for each copy of the table, unless a transfer fails. -/
lemma total_setFatCopies (hb : InBounds fs) (c v : ℕ) : Total (setFatCopies fs c v) := by
  have hcopies := hb.copies_lt
  refine .iter (fun _ => True) (fun copy => fs.numFats - copy) (fun copy s _ => ?_) trivial
    (lt_loopFuel (by omega))
  refine wp_ite_intro (fun hlt => ?_) fun _ => (wp_pure _ _ _).mpr trivial
  rw [wp_bind]
  refine (total_read _ _ _ s).wp fun r s₁ => ?_
  cases r with
  | none => exact (wp_pure _ _ _).mpr trivial
  | some buf =>
    simp only [wp_bind]
    refine (total_write _ _ _ _ s₁).wp fun ok s₂ => wp_ite_intro (fun _ => ?_) fun _ => ?_
    · refine (wp_pure _ _ _).mpr ⟨trivial, ?_⟩
      omega
    · exact (wp_pure _ _ _).mpr trivial

lemma total_setEntry (hb : InBounds fs) (c v : ℕ) : Total (fat32SetFatEntry fs c v) :=
  .bind .read fun _ => .bind (.change _) fun _ => .bind (total_setFatCopies hb c v) fun _ =>
    .ite (.bind (.change _) fun _ => .ret _) (.ret _)

/-! ## Allocation -/

/-- The search starts at a cluster of the volume, or at the first one. -/
lemma searchStart_le (fs : Fat32Fs) (s : Fat32State) :
    searchStart fs s ≤ max 2 (u32 (fs.totalClusters + 1)) := by
  unfold searchStart
  dsimp only
  split <;> omega

/-- The search in a range of clusters comes to its end: the number does not wrap around. -/
lemma total_allocClusterIn (hb : InBounds fs) {hi : ℕ} (hhi : hi < 2 ^ 32 - 1) (lo : ℕ) :
    Total (allocClusterIn fs lo hi) := by
  refine .iter (fun _ => True) (fun c => hi + 1 - c) (fun c s _ => ?_) trivial
    (lt_loopFuel (by omega))
  refine wp_ite_intro (fun hle => ?_) fun _ => (wp_pure _ _ _).mpr trivial
  rw [wp_bind]
  refine (total_next fs c s).wp fun n s₁ => wp_ite_intro (fun _ => ?_) fun _ => ?_
  · rw [wp_bind]
    refine (total_setEntry hb c _ s₁).wp fun ok s₂ => wp_ite_intro (fun _ => ?_) fun _ => ?_
    · simp only [setHint, wp_bind, wp_modify, wp_pure, Sum.elim_inr]
    · exact (wp_pure _ _ _).mpr trivial
  · refine (wp_pure _ _ _).mpr ⟨trivial, ?_⟩
    rw [u32, Nat.mod_eq_of_lt (by omega)]
    omega

lemma total_allocCluster (hb : InBounds fs) : Total (fat32AllocCluster fs) := by
  have hlast := hb.last
  refine .bind .read fun s => .bind (total_allocClusterIn hb hlast _) fun r => ?_
  cases r with
  | some c => exact .ret _
  | none =>
    have hle := searchStart_le fs s
    refine .bind (total_allocClusterIn hb (by omega) _) fun r => ?_
    cases r with
    | some c => exact .ret _
    | none => exact .ret _

/-- One pass of the search for a run, over a range of clusters. -/
lemma total_searchPass (want : ℕ) {hi : ℕ} (hhi : hi < 2 ^ 32 - 1) (lo : ℕ) (r : RunSearch) :
    Total (searchPass fs want lo hi r) := by
  refine .ite (.ret _) (.iter (fun _ => True) (fun p => hi + 1 - p.1) (fun p s _ => ?_) trivial
    (lt_loopFuel (by dsimp only; omega)))
  obtain ⟨c, r⟩ := p
  refine wp_ite_intro (fun hle => ?_) fun _ => (wp_pure _ _ _).mpr trivial
  have hdown : hi + 1 - u32 (c + 1) < hi + 1 - c := by
    rw [u32, Nat.mod_eq_of_lt (by omega)]
    omega
  rw [wp_bind]
  refine (total_next fs c s).wp fun n s₁ => wp_ite_intro (fun _ => ?_) fun _ => ?_
  · exact wp_ite_intro (fun _ => (wp_pure _ _ _).mpr trivial)
      fun _ => (wp_pure _ _ _).mpr ⟨trivial, hdown⟩
  · exact (wp_pure _ _ _).mpr ⟨trivial, hdown⟩

lemma total_chainRun (hb : InBounds fs) (start : ℕ) {len : ℕ} (hlen : len < 2 ^ 32) :
    Total (chainRun fs start len) := by
  refine .iter (fun _ => True) (fun i => len - i) (fun i s _ => ?_) trivial
    (lt_loopFuel (by omega))
  refine wp_ite_intro (fun hlt => ?_) fun _ => (wp_pure _ _ _).mpr trivial
  simp only [wp_bind]
  refine (total_setEntry hb _ _ s).wp fun ok s₁ => wp_ite_intro (fun _ => ?_) fun _ => ?_
  · refine (wp_pure _ _ _).mpr ⟨trivial, ?_⟩
    omega
  · exact (wp_pure _ _ _).mpr trivial

/-- `fat32_alloc_run` returns: both passes end, and the run is chained cluster by cluster. -/
lemma total_allocRun (hb : InBounds fs) {want : ℕ} (hwant : want < 2 ^ 32) :
    Total (fat32AllocRun fs want) := by
  have hlast := hb.last
  refine .bind .read fun s => .bind (total_searchPass _ hlast _ _) fun r => ?_
  have hle := searchStart_le fs s
  refine .bind (total_searchPass _ (by omega) _ _) fun r => .ite (.ret _) ?_
  refine .bind (total_chainRun hb _ (lt_of_le_of_lt (min_le_right _ _) ?_)) fun ok =>
    .ite (.bind (.change _) fun _ => .ret _) (.ret _)
  split <;> omega

/-- A run has at least one cluster and at most as many as were asked for. -/
lemma allocRun_length (fs : Fat32Fs) (want : ℕ) (s : Fat32State) :
    wlp (fat32AllocRun fs want) (fun r _ => (r.1 ≠ 0 → 1 ≤ r.2) ∧ r.2 ≤ max 1 want) s := by
  simp only [fat32AllocRun, setHint, wlp_bind, wlp_get, wlp_ite, wlp_pure, wlp_modify]
  intro r s₁ _ r' s₂ _
  split
  · exact ⟨fun h => absurd rfl h, Nat.zero_le _⟩
  · intro ok s₃ _
    split
    · split <;> omega
    · exact ⟨fun h => absurd rfl h, Nat.zero_le _⟩

lemma total_freeRun (hb : InBounds fs) (start : ℕ) {len : ℕ} (hlen : len < 2 ^ 32) :
    Total (freeRun fs start len) := by
  refine .iter (fun _ => True) (fun i => len - i) (fun i s _ => ?_) trivial
    (lt_loopFuel (by omega))
  refine wp_ite_intro (fun hlt => ?_) fun _ => (wp_pure _ _ _).mpr trivial
  rw [wp_bind]
  refine (total_setEntry hb _ _ s).wp fun ok s₁ => (wp_pure _ _ _).mpr ⟨trivial, ?_⟩
  omega

/-- The copy follows the old chain but counts its clusters. -/
lemma total_copyChain (old new : ℕ) {len : ℕ} (hlen : len < 2 ^ 32) :
    Total (copyChain fs old new len) := by
  refine .iter (fun _ => True) (fun p => len - p.1) (fun p s _ => ?_) trivial
    (lt_loopFuel (by dsimp only; omega))
  obtain ⟨i, c⟩ := p
  refine wp_ite_intro (fun hlt => ?_) fun _ => (wp_pure _ _ _).mpr trivial
  rw [wp_bind]
  refine (total_read _ _ _ s).wp fun r s₁ => ?_
  cases r with
  | none => exact (wp_pure _ _ _).mpr trivial
  | some buf =>
    simp only [wp_bind]
    refine (total_writeData _ _ _ _ s₁).wp fun ok s₂ => wp_ite_intro (fun _ => ?_) fun _ => ?_
    · rw [wp_bind]
      refine (total_next fs c s₂).wp fun n s₃ => (wp_pure _ _ _).mpr ⟨trivial, ?_⟩
      dsimp only
      omega
    · exact (wp_pure _ _ _).mpr trivial

lemma total_freeOldChain (hb : InBounds fs) (old : ℕ) {len : ℕ} (hlen : len < 2 ^ 32) :
    Total (freeOldChain fs old len) := by
  refine .iter (fun _ => True) (fun p => len - p.1) (fun p s _ => ?_) trivial
    (lt_loopFuel (by dsimp only; omega))
  obtain ⟨i, c⟩ := p
  refine wp_ite_intro (fun hlt => ?_) fun _ => (wp_pure _ _ _).mpr trivial
  simp only [wp_bind]
  refine (total_next fs c s).wp fun n s₁ => (total_setEntry hb c 0 s₁).wp fun ok s₂ => ?_
  refine (wp_pure _ _ _).mpr ⟨trivial, ?_⟩
  dsimp only
  omega

/-! ## Writing -/

lemma total_updateSector (fs : Fat32Fs) (lba : ℕ) (g : Bytes → Bytes) :
    Total (updateSector fs lba g) := by
  refine .bind (total_read _ _ _) fun r => ?_
  cases r with
  | none => exact .ret _
  | some buf => exact total_writeData _ _ _ _

lemma total_flush (node : ℕ) : Total (fat32FlushDirent node) := by
  refine .bind .read fun s => .ite (.ret _) (.bind (total_read _ _ _) fun r => ?_)
  cases r with
  | none => exact .ret _
  | some buf => exact total_writeData _ _ _ _

lemma total_zeroRun (fs : Fat32Fs) (lba : ℕ) {total : ℕ} (h : total < 2 ^ 32) :
    Total (zeroRun fs lba total) := by
  refine .iter (fun _ => True) (fun zeroed => total - zeroed) (fun zeroed s _ => ?_) trivial
    (lt_loopFuel (by omega))
  refine wp_ite_intro (fun hlt => ?_) fun _ => (wp_pure _ _ _).mpr trivial
  simp only [wp_bind]
  refine (total_writeData _ _ _ _ s).wp fun ok s₁ => wp_ite_intro (fun _ => ?_) fun _ => ?_
  · refine (wp_pure _ _ _).mpr ⟨trivial, ?_⟩
    have hmax : 0 < fat32MaxClusterSectors := by decide
    omega
  · exact (wp_pure _ _ _).mpr trivial

/-- Every round allocates at least one cluster or ends the loop. -/
lemma total_growChain (hb : InBounds fs) {needed : ℕ} (h : needed < 2 ^ 32) (tail allocated : ℕ) :
    Total (growChain fs needed tail allocated) := by
  refine .iter (fun _ => True) (fun p => needed - p.2) (fun p s _ => ?_) trivial
    (lt_loopFuel (by dsimp only; omega))
  obtain ⟨tail, allocated⟩ := p
  refine wp_ite_intro (fun hlt => ?_) fun _ => (wp_pure _ _ _).mpr trivial
  rw [wp_bind]
  refine wp_mono ((total_allocRun hb (by omega) s).wp_of_wlp (allocRun_length fs _ s)) ?_
  rintro ⟨start, got⟩ s₁ ⟨hgot, -⟩
  refine wp_ite_intro (fun _ => (wp_pure _ _ _).mpr trivial) fun hstart => ?_
  simp only [wp_bind]
  refine (total_zeroRun fs _ (Nat.mod_lt _ (by decide)) s₁).wp fun ok s₂ => ?_
  refine wp_ite_intro (fun _ => ?_) fun _ => (wp_pure _ _ _).mpr trivial
  rw [wp_bind]
  refine (total_setEntry hb _ _ s₂).wp fun ok s₃ => wp_ite_intro (fun _ => ?_) fun _ => ?_
  · refine (wp_pure _ _ _).mpr ⟨trivial, ?_⟩
    have hone : 1 ≤ got := hgot hstart
    dsimp only
    omega
  · exact (wp_pure _ _ _).mpr trivial

/-- The loop that skips clusters goes round once for each cluster in front of the offset. -/
lemma total_skipClusters (hb : InBounds fs) {offset : ℕ} (h : offset / clusterSize fs + 1 < 2 ^ 32)
    (cluster : ℕ) : Total (skipClusters fs offset cluster) := by
  have hpos : 0 < clusterSize fs := Nat.mul_pos hb.spc_pos (by decide)
  refine .iter (fun p => clusterSize fs ∣ p.2)
    (fun p => offset / clusterSize fs + 1 - p.2 / clusterSize fs) (fun p s hp => ?_)
    (dvd_zero _) (lt_loopFuel (by rw [Nat.zero_div]; exact h))
  obtain ⟨c, pos⟩ := p
  obtain ⟨k, rfl⟩ : clusterSize fs ∣ pos := hp
  refine wp_ite_intro (fun hlt => ?_) fun _ => (wp_pure _ _ _).mpr trivial
  rw [wp_bind]
  refine (total_next fs c s).wp fun n s₁ => (wp_pure _ _ _).mpr ⟨?_, ?_⟩
  · exact Dvd.intro (k + 1) (Nat.mul_succ _ k)
  · have hk : k + 1 ≤ offset / clusterSize fs := by
      rw [Nat.le_div_iff_mul_le hpos, Nat.mul_comm, Nat.mul_succ]
      exact hlt.1
    change offset / clusterSize fs + 1 - (clusterSize fs * k + clusterSize fs) / clusterSize fs <
      offset / clusterSize fs + 1 - clusterSize fs * k / clusterSize fs
    rw [← Nat.mul_succ, Nat.mul_div_cancel_left _ hpos, Nat.mul_div_cancel_left _ hpos]
    omega

/-- The first sector that the window loop finds overlaps the window. -/
lemma sectorWindow_first {spc pos offset size n a b : ℕ} {found : Option (ℕ × ℕ)}
    (hfound : ∀ a b, found = some (a, b) → offset < u32 (u32 (pos + a * 512) + 512))
    (h : sectorWindow spc pos offset size n found = some (a, b)) :
    offset < u32 (u32 (pos + a * 512) + 512) := by
  induction n generalizing found with
  | zero => exact hfound a b h
  | succ n ih =>
    simp only [sectorWindow] at h
    split_ifs at h with hskip hstop
    · exact ih hfound h
    · exact hfound a b h
    · refine ih ?_ h
      rintro a b ⟨⟩
      cases found with
      | none => exact not_le.mp hskip
      | some p => exact hfound p.1 p.2 rfl

/-- The number of the bytes that have been copied never goes down. -/
lemma le_copyIn {firstS pos offset size : ℕ} {input : Bytes} (n s : ℕ) (buf : Bytes) (done : ℕ) :
    done ≤ (copyIn firstS pos offset size input n s (buf, done)).2 := by
  induction n generalizing s buf done with
  | zero => exact le_rfl
  | succ n ih =>
    rw [copyIn]
    exact le_trans (Nat.le_add_right _ _) (ih _ _ _)

/-- Something is copied from a sector that ends behind the offset. -/
lemma sectorCopy_pos {start offset left : ℕ} (h : offset < start + 512) (hleft : 1 ≤ left) :
    1 ≤ (sectorCopy start offset left).2 := by
  refine le_min ?_ hleft
  unfold u32sub u32
  split_ifs
  · have hskip : (offset - start) % 2 ^ 32 = offset - start := Nat.mod_eq_of_lt (by omega)
    rw [hskip]
    omega
  · omega

/-- Every round of the loop over the clusters copies at least one byte. -/
lemma lt_copyIn {spc pos offset size a b : ℕ} {input : Bytes} (buf : Bytes) {done : ℕ}
    (hdone : done < size)
    (h : sectorWindow spc pos offset size spc none = some (a, b)) :
    done < (copyIn a pos offset size input (b - a + 1) a (buf, done)).2 := by
  have hlt := sectorWindow_first (fun _ _ h => by simp at h) h
  have hcopy := sectorCopy_pos (lt_of_lt_of_le hlt (Nat.mod_le _ _))
    (show 1 ≤ size - done by omega)
  rw [copyIn]
  exact lt_of_lt_of_le (by omega) (le_copyIn _ _ _ _)

/-- The loop of `fat32_write` ends, since every round copies a byte. -/
lemma total_writeLoop {offset size : ℕ} (hsize : size < 2 ^ 32) (input : Bytes) (v : FileLoop) :
    Total (writeLoop fs offset size input v) := by
  refine .iter (fun _ => True) (fun v => size - v.done) (fun v s _ => ?_) trivial
    (lt_loopFuel (by omega))
  refine wp_ite_intro (fun hlt => ?_) fun _ => (wp_pure _ _ _).mpr trivial
  cases hwin : sectorWindow fs.sectorsPerCluster v.pos offset size fs.sectorsPerCluster none with
  | none => exact (wp_pure _ _ _).mpr trivial
  | some p =>
    obtain ⟨a, b⟩ := p
    simp only [wp_bind]
    refine (total_read _ _ _ s).wp fun r s₁ => ?_
    cases r with
    | none => exact (wp_pure _ _ _).mpr trivial
    | some buf =>
      simp only [wp_bind]
      refine (total_writeData _ _ _ _ s₁).wp fun ok s₂ => wp_ite_intro (fun _ => ?_) fun _ => ?_
      · rw [wp_bind]
        refine (total_next fs _ s₂).wp fun n s₃ => (wp_pure _ _ _).mpr ⟨trivial, ?_⟩
        have hmore := @lt_copyIn _ _ _ _ _ _ input buf _ hlt.1 hwin
        dsimp only at hmore ⊢
        omega
      · exact (wp_pure _ _ _).mpr trivial

lemma total_writeWindow (hb : InBounds fs) {offset size : ℕ}
    (hoffset : offset / clusterSize fs + 1 < 2 ^ 32) (hsize : size < 2 ^ 32) (node first : ℕ)
    (input : Bytes) : Total (writeWindow fs node offset size first input) := by
  refine .bind (total_skipClusters hb hoffset first) fun p => ?_
  refine .bind (total_writeLoop hsize input _) fun n => .ite (.ret _) ?_
  exact .bind (.change _) fun _ => .bind (total_flush node) fun _ => .ret _

end Fat32

end CoolFrost

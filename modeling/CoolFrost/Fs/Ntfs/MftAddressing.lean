import CoolFrost.Fs.Ntfs.RunLists
import CoolFrost.Fs.Ntfs.Fixups
import CoolFrost.Fs.Ntfs.Scans

/-!
# NTFS: where the records of the master file table are

The master file table is a file like any other: record 0 describes it, and its run list says where
its clusters are.  `read_mft_record` does not look at that list but goes on from the first cluster,
which the boot sector names.  `fetchMftRecord_follows_iff` says for which records this makes no
difference: those whose clusters the list puts where a table in one piece would have them, and those
that happen to have the same bytes there.
-/

namespace CoolFrost

open Program

namespace Ntfs

variable {fs : NtfsFs}

/-- The cluster that a run list gives to cluster number `vcn` of a file. -/
def lcnAt : List Run → ℕ → Option ℕ
  | [], _ => none
  | r :: rs, vcn => if vcn < r.length then r.lcn.map (· + vcn) else lcnAt rs (vcn - r.length)

/-- The fields of a volume fit together, and a record fits into `mft_buf`. -/
structure MftLayout (fs : NtfsFs) (mftCluster : ℕ) : Prop where
  spc_pos : 1 ≤ fs.sectorsPerCluster
  clusterSize : fs.clusterSize = fs.sectorsPerCluster * 512
  mftLba : fs.mftLba = fs.partLba + mftCluster * fs.sectorsPerCluster
  recordSize : fs.mftRecordSize = fs.mftSectors * 512
  sectors_le : fs.mftSectors ≤ 8

/-- Record 0 describes a table of `size` bytes with the given run list. -/
def MftFile (fs : NtfsFs) (s : NtfsState) (runs : List Run) (size : ℕ) : Prop :=
  wp (readMftRecord fs 0) (fun rc s₁ => rc = 0 ∧
    wp (findAttr s₁.mftBuf attrData) (fun r _ => ∃ attr, r = some attr ∧
      s₁.mftBuf (attr + 8) ≠ 0 ∧ size = Bytes.leNat s₁.mftBuf (attr + 48) 8 ∧
      RunsAt s₁.mftBuf (attr + Bytes.leNat s₁.mftBuf (attr + 32) 2) 0 runs ∧
      size ≤ clusters runs * fs.clusterSize) s₁) s

/-- The run list has position `k` of the table where a table in one piece has it. -/
def InPlace (fs : NtfsFs) (mftCluster : ℕ) (runs : List Run) (k : ℕ) : Prop :=
  lcnAt runs (k / fs.clusterSize) = some (mftCluster + k / fs.clusterSize)

/-- Position `k` of a table in one piece. -/
def directAddr (fs : NtfsFs) (k : ℕ) : ℕ := fs.mftLba * 512 + k

/-- A stream has the bytes of the clusters that its run list names. -/
lemma streamByte_of_lcnAt {disk : Bytes} (hpos : 0 < fs.clusterSize)
    (hsize : fs.clusterSize = fs.sectorsPerCluster * 512) {runs : List Run} {k lcn : ℕ}
    (h : lcnAt runs (k / fs.clusterSize) = some lcn) :
    streamByte fs disk runs k =
      disk ((fs.partLba + lcn * fs.sectorsPerCluster) * 512 + k % fs.clusterSize) := by
  induction runs generalizing k with
  | nil => cases h
  | cons r rs ih =>
    rw [lcnAt] at h
    rw [streamByte]
    have hiff : k / fs.clusterSize < r.length ↔ k < r.length * fs.clusterSize :=
      Nat.div_lt_iff_lt_mul hpos
    split at h
    · rename_i hlt
      obtain ⟨first, hfirst, rfl⟩ := Option.map_eq_some_iff.mp h
      rw [if_pos (hiff.mp hlt), hfirst]
      refine congrArg disk ?_
      have hsplit := Nat.div_add_mod k fs.clusterSize
      rw [hsize] at hsplit ⊢
      generalize k / (fs.sectorsPerCluster * 512) = idx at hsplit ⊢
      generalize k % (fs.sectorsPerCluster * 512) = rest at hsplit ⊢
      rw [← hsplit]
      ring
    · rename_i hge
      have hle : r.length * fs.clusterSize ≤ k := not_lt.mp (hiff.not.mp hge)
      have hdiv : (k - r.length * fs.clusterSize) / fs.clusterSize =
          k / fs.clusterSize - r.length := by
        rw [Nat.mul_comm, Nat.sub_mul_div]
      have hmod : (k - r.length * fs.clusterSize) % fs.clusterSize = k % fs.clusterSize := by
        rw [Nat.mul_comm]
        exact Nat.sub_mul_mod (by rw [Nat.mul_comm]; exact hle)
      rw [if_neg (hiff.not.mp hge), ih (by rw [hdiv]; exact h), hmod]

/-- In a table in one piece the two places are the same. -/
lemma streamByte_of_inPlace {disk : Bytes} {mftCluster : ℕ} (h : MftLayout fs mftCluster)
    {runs : List Run} {k : ℕ} (hk : InPlace fs mftCluster runs k) :
    streamByte fs disk runs k = disk (directAddr fs k) := by
  have hpos : 0 < fs.clusterSize := by
    have := h.spc_pos
    rw [h.clusterSize]
    omega
  rw [streamByte_of_lcnAt hpos h.clusterSize hk, directAddr, h.mftLba]
  refine congrArg disk ?_
  have hsplit := Nat.div_add_mod k fs.clusterSize
  rw [h.clusterSize] at hsplit ⊢
  generalize k / (fs.sectorsPerCluster * 512) = idx at hsplit ⊢
  generalize k % (fs.sectorsPerCluster * 512) = rest at hsplit ⊢
  rw [← hsplit]
  ring

/-- What `read_mft_record` fetches: the bytes that a table in one piece has for the record. -/
lemma wp_fetchMftRecord {mftCluster : ℕ} (h : MftLayout fs mftCluster) (n : ℕ) {s : NtfsState}
    (hs : s.blk.NoFail) :
    wp (fetchMftRecord fs n) (fun ok s' => ok = true ∧
      (∀ j < fs.mftRecordSize,
        s'.mftBuf j = s.blk.disk fs.dev (directAddr fs (n * fs.mftRecordSize + j))) ∧
      ∃ calls, s' = { After s calls with mftBuf := s'.mftBuf }) s := by
  have hle := h.sectors_le
  simp only [fetchMftRecord, wp_bind]
  refine wp_ioRead hs _ _ _ ?_
  simp only [wp_bind, wp_modify, wp_pure, true_and]
  have hcount : fs.mftSectors % 256 * 512 = fs.mftRecordSize := by
    rw [h.recordSize, Nat.mod_eq_of_lt (by omega)]
  refine ⟨fun j hj => ?_, _, rfl⟩
  rw [hcount]
  rw [Bytes.blit_start hj, Bytes.clip_of_lt hj, Bytes.shift, directAddr, h.recordSize]
  refine congrArg (s.blk.disk fs.dev) ?_
  ring

/-- `read_mft_record` on a record that is stored whole: the header is what the drive has. -/
lemma wp_readMftRecord_stored {mftCluster : ℕ} (h : MftLayout fs mftCluster) {n : ℕ} {s : NtfsState}
    (hs : s.blk.NoFail) {record : Bytes} (hpos : 512 ≤ fs.mftRecordSize)
    (hrecord : ∀ j < fs.mftRecordSize,
      s.blk.disk fs.dev (directAddr fs (n * fs.mftRecordSize + j)) = record j)
    (hsig : Bytes.slice record 0 4 = fileSignature) (hlayout : FixupLayout record fs.mftRecordSize)
    (hsealed : Sealed record fs.mftRecordSize) :
    wp (readMftRecord fs n) (fun rc t => rc = 0 ∧ (∀ j < 510, t.mftBuf j = record j) ∧
      ∃ calls, t = { After s calls with mftBuf := t.mftBuf }) s := by
  rw [readMftRecord, wp_bind]
  refine wp_mono (wp_fetchMftRecord h n hs) fun ok s' hfetch => ?_
  obtain ⟨rfl, hbytes, calls, hs'⟩ := hfetch
  have hbuf : ∀ j < fs.mftRecordSize, s'.mftBuf j = record j :=
    fun j hj => (hbytes j hj).trans (hrecord j hj)
  have hslice : Bytes.slice s'.mftBuf 0 4 = fileSignature := by
    rw [← hsig]
    exact Bytes.slice_congr fun i hi => hbuf _ (by omega)
  have hfixed : fixedUp s'.mftBuf fs.mftRecordSize =
      (putBack s'.mftBuf (fs.mftRecordSize / 512), true) := by
    rw [fixedUp, firstTorn_eq_none_iff.mpr (hsealed.congr hlayout hpos hbuf)]
  simp only [if_true, wp_bind, wp_get, hslice, ne_eq, not_true_eq_false, if_false, wp_load]
  refine ⟨by decide, by decide, (wp_applyFixup (hlayout.congr hpos hbuf) _ _).mpr ?_⟩
  rw [hfixed]
  simp only [wp_modify, wp_pure, if_true]
  refine ⟨trivial, fun j hj => ?_, calls, ?_⟩
  · rw [putBack_of_lt (by omega), hbuf j (by omega)]
  · rw [hs']

/-- The bytes that `read_mft_record` fetches for record `n` are those of the data stream that record
0 describes exactly if the drive has the same bytes wherever the run list leads elsewhere. -/
theorem fetchMftRecord_follows_iff {mftCluster : ℕ} (h : MftLayout fs mftCluster) {s : NtfsState}
    (hs : s.blk.NoFail) {runs : List Run} {size : ℕ} (_ : MftFile fs s runs size) {n : ℕ}
    (_ : (n + 1) * fs.mftRecordSize ≤ size) :
    wp (fetchMftRecord fs n) (fun ok s' => ok = true ∧ ∀ j < fs.mftRecordSize,
      s'.mftBuf j = streamByte fs (s.blk.disk fs.dev) runs (n * fs.mftRecordSize + j)) s ↔
    ∀ j < fs.mftRecordSize, ¬InPlace fs mftCluster runs (n * fs.mftRecordSize + j) →
      s.blk.disk fs.dev (directAddr fs (n * fs.mftRecordSize + j)) =
        streamByte fs (s.blk.disk fs.dev) runs (n * fs.mftRecordSize + j) := by
  obtain ⟨ok, s', hrun, hok, hbytes, -⟩ := wp_fetchMftRecord h n hs
  rw [wp_iff_of_eq hrun, and_iff_right hok]
  refine forall₂_congr fun j hj => ?_
  rw [hbytes j hj]
  constructor
  · exact fun heq _ => heq
  · intro hsame
    by_cases hplace : InPlace fs mftCluster runs (n * fs.mftRecordSize + j)
    · exact (streamByte_of_inPlace h hplace).symm
    · exact hsame hplace

/-! ## A table in two pieces -/

/-- Record 0 of a table that has clusters 10 and 11 and then clusters 20 and 21, as it is on the
drive: a record with one attribute, at 56. -/
def splitRecord : Bytes := fun i =>
  if i < 4 then fileSignature.getD i 0
  else if i = 4 then 48
  else if i = 6 then 3
  else if i = 20 then 56
  else if i = 24 then 200
  else if i = 48 ∨ i = 510 ∨ i = 1022 then 1
  else if i = 56 then 0x80
  else if i = 60 then 80
  else if i = 64 then 1
  else if i = 88 then 64
  else if i = 105 then 8
  else if 120 ≤ i ∧ i < 127 then [0x11, 2, 10, 0x11, 2, 10, 0].getD (i - 120) 0
  else if 136 ≤ i ∧ i < 140 then 0xFF
  else 0

/-- The runs of that table. -/
def splitRuns : List Run := [⟨2, some 10⟩, ⟨2, some 20⟩]

/-- The drive of such a volume: cluster 20 starts with the byte `v`. -/
def splitState (v : UInt8) : NtfsState where
  blk := ⟨fun _ i => if 5120 ≤ i ∧ i < 6144 then splitRecord (i - 5120)
    else if i = 10240 then v else 0, fun _ => false, 0, []⟩
  mftBuf := Bytes.zeros
  indxBuf := Bytes.zeros
  fsPoolUsed := 1
  nodePool := fun _ => rootNode smallFs
  nodePoolUsed := 1

lemma splitState_disk (v : UInt8) (dev : Drive) (i : ℕ) : (splitState v).blk.disk dev i =
    if 5120 ≤ i ∧ i < 6144 then splitRecord (i - 5120) else if i = 10240 then v else 0 := rfl

lemma smallFs_mftLayout : MftLayout smallFs 10 :=
  ⟨by decide, by decide, by decide, by decide, by decide⟩

/-- Any buffer with the bytes of that record, once its sector ends are put back, leads to the two
pieces. -/
lemma splitRecord_runsAt {rec : Bytes} (h : ∀ j < 510, rec j = splitRecord j) :
    RunsAt rec 120 0 splitRuns := by
  have hnum : ∀ off k, off + k ≤ 510 → Bytes.leNat rec off k = Bytes.leNat splitRecord off k :=
    fun off k hk => Bytes.leNat_congr fun i hi => h _ (by omega)
  have hint : ∀ off k, 0 < k → off + k ≤ 510 → leInt rec off k = leInt splitRecord off k := by
    intro off k hpos hk
    rw [leInt, leInt, hnum off k hk, h (off + k - 1) (by omega)]
  refine @RunsAt.mapped rec 120 0 1 1 2 10 [⟨2, some 20⟩] ?_ (by decide) (by decide) (by decide) ?_
    (by decide) ?_ (by decide)
    (@RunsAt.mapped rec 123 10 1 1 2 20 [] ?_ (by decide) (by decide) (by decide) ?_ (by decide) ?_
      (by decide) (.done (by decide) ?_))
  · rw [h _ (by decide)]
    decide
  · rw [hnum _ _ (by decide)]
    decide
  · rw [hint _ _ (by decide) (by decide)]
    decide
  · rw [h _ (by decide)]
    decide
  · rw [hnum _ _ (by decide)]
    decide
  · rw [hint _ _ (by decide) (by decide)]
    decide
  · rw [h _ (by decide)]
    decide

/-- A scan of the attributes looks at the header only, if it stays there. -/
lemma attrStep_congr {b b' : Bytes} {n usedSize type off : ℕ} (hb : ∀ j < n, b' j = b j)
    (hoff : off + 8 ≤ n) : attrStep b' usedSize type off = attrStep b usedSize type off := by
  have hnum : ∀ i k, i + k ≤ n → Bytes.leNat b' i k = Bytes.leNat b i k :=
    fun i k hk => Bytes.leNat_congr fun x hx => hb _ (by omega)
  rw [attrStep, attrStep, hnum off 4 (by omega), hnum (off + 4) 4 (by omega)]

/-- Record 0 of the small volume describes the table in two pieces. -/
lemma splitFile (v : UInt8) : MftFile smallFs (splitState v) splitRuns 2048 := by
  have hrecord : ∀ j < smallFs.mftRecordSize, (splitState v).blk.disk smallFs.dev
      (directAddr smallFs (0 * smallFs.mftRecordSize + j)) = splitRecord j := by
    intro j hj
    have hj : j < 1024 := hj
    have haddr : directAddr smallFs (0 * smallFs.mftRecordSize + j) = 5120 + j := by
      simp only [directAddr, smallFs]
      omega
    rw [haddr, splitState_disk, if_pos ⟨by omega, by omega⟩, Nat.add_sub_cancel_left]
  refine wp_mono (wp_readMftRecord_stored smallFs_mftLayout (fun _ => rfl) (by decide)
    hrecord (by decide)
    ⟨by decide, by decide, by decide, by decide⟩ (by decide)) fun rc t hread => ?_
  obtain ⟨rfl, hhead, -⟩ := hread
  have hnum : ∀ off k, off + k ≤ 510 → Bytes.leNat t.mftBuf off k = Bytes.leNat splitRecord off k :=
    fun off k hk => Bytes.leNat_congr fun i hi => hhead _ (by omega)
  have hfirst : Bytes.leNat splitRecord 20 2 = 56 := by decide
  refine ⟨rfl, (wp_findAttr ..).mpr ⟨some 56, ?_, 56, rfl, ?_, ?_, ?_, by decide⟩⟩
  · rw [hnum 24 4 (by decide), hnum 20 2 (by decide), hfirst]
    apply Scans.leave
    rw [attrStep_congr hhead (by decide)]
    decide
  · rw [hhead _ (by decide)]
    decide
  · rw [hnum _ _ (by decide)]
    decide
  · rw [hnum _ _ (by decide)]
    exact splitRecord_runsAt hhead

/-- With zeros in clusters 20 and 21 the second record of that table, which is there and not in
clusters 12 and 13, is fetched all the same. -/
theorem fetchMftRecord_follows_iff_zeros :
    wp (fetchMftRecord smallFs 1) (fun ok s' => ok = true ∧ ∀ j < smallFs.mftRecordSize,
      s'.mftBuf j = streamByte smallFs ((splitState 0).blk.disk smallFs.dev) splitRuns
        (1 * smallFs.mftRecordSize + j)) (splitState 0) := by
  refine (fetchMftRecord_follows_iff smallFs_mftLayout (fun _ => rfl) (splitFile 0)
    (by decide)).mpr ?_
  intro j hj _
  have hj : j < 1024 := hj
  have hzero : ∀ i, 6144 ≤ i → (splitState 0).blk.disk smallFs.dev i = 0 := by
    intro i hi
    rw [splitState_disk, if_neg (by omega), ite_self]
  have hsize : (1 : ℕ) * smallFs.mftRecordSize + j = 1024 + j := by simp only [smallFs]
  have hcluster : smallFs.clusterSize = smallFs.sectorsPerCluster * 512 := by decide
  rw [hsize, hzero _ (by simp only [directAddr, smallFs]; omega)]
  have hlcn : lcnAt splitRuns ((1024 + j) / smallFs.clusterSize) =
      some (20 + ((1024 + j) / 512 - 2)) := by
    have hge : ¬(1024 + j) / 512 < 2 := by omega
    have hlt : (1024 + j) / 512 - 2 < 2 := by omega
    rw [show smallFs.clusterSize = 512 from rfl, splitRuns, lcnAt, if_neg hge, lcnAt, if_pos hlt]
    rfl
  rw [streamByte_of_lcnAt (by decide) hcluster hlcn, hzero]
  simp only [smallFs]
  omega

/-- Record 1 of the table in two pieces is not fetched from where the run list has it. -/
theorem not_fetchMftRecord_follows : ¬∀ (fs : NtfsFs) (mftCluster n size : ℕ) (runs : List Run)
    (s : NtfsState), MftLayout fs mftCluster → s.blk.NoFail → MftFile fs s runs size →
    (n + 1) * fs.mftRecordSize ≤ size →
    wp (fetchMftRecord fs n) (fun ok s' => ok = true ∧ ∀ j < fs.mftRecordSize,
      s'.mftBuf j = streamByte fs (s.blk.disk fs.dev) runs (n * fs.mftRecordSize + j)) s := by
  intro h
  have hgood := h smallFs 10 1 2048 splitRuns (splitState 1) smallFs_mftLayout (fun _ => rfl)
    (splitFile 1) (by decide)
  obtain ⟨ok, s', hrun, -, hbytes, -⟩ :=
    wp_fetchMftRecord smallFs_mftLayout 1 (s := splitState 1) fun _ => rfl
  rw [wp_iff_of_eq hrun] at hgood
  have hone := hgood.2 0 (by decide)
  rw [hbytes 0 (by decide)] at hone
  exact absurd hone (by decide)

end Ntfs

end CoolFrost

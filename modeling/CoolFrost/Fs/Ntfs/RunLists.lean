import CoolFrost.Fs.Ntfs.Dir

/-!
# NTFS: what a run list describes

A run list describes a stream of bytes: mapped runs are the clusters they name, sparse runs are
zeros (`streamByte`).  `RunsAt` says how a list is written down, each mapped run relative to the
mapped run before it.  `read_nonresident` has no notion of a sparse run: it fetches the clusters
that the run would have if its offset were 0 (`storedByte`), and keeps its positions in 32 bits.
`readNonresident_exact_iff` says when it is right all the same.
-/

namespace CoolFrost

open Program

namespace Ntfs

/-- A run of clusters: `lcn` is the first one, `none` for a sparse run. -/
structure Run where
  length : ℕ
  lcn : Option ℕ
  deriving DecidableEq, Repr

/-- The number of clusters of a run list. -/
def clusters (runs : List Run) : ℕ := (runs.map Run.length).sum

/-- The byte at position `k` of the stream that a run list describes. -/
def streamByte (fs : NtfsFs) (disk : Bytes) : List Run → ℕ → UInt8
  | [], _ => 0
  | r :: rs, k =>
    if k < r.length * fs.clusterSize then
      match r.lcn with
      | none => 0
      | some lcn => disk ((fs.partLba + lcn * fs.sectorsPerCluster) * 512 + k)
    else streamByte fs disk rs (k - r.length * fs.clusterSize)

/-- The two's complement number in the `n` bytes at `off`. -/
def leInt (b : Bytes) (off n : ℕ) : ℤ :=
  if 0 < n ∧ 128 ≤ (b (off + n - 1)).toNat then (Bytes.leNat b off n : ℤ) - 256 ^ n
  else Bytes.leNat b off n

/-- The bytes at `pos` of a record are the run list `runs`, `prev` being the first cluster of the
last mapped run before it. -/
inductive RunsAt (b : Bytes) : ℕ → ℕ → List Run → Prop
  | done {pos prev : ℕ} (hpos : pos < bufSize) (hend : b pos = 0) : RunsAt b pos prev []
  | sparse {pos prev lenSz len : ℕ} {rs : List Run} (hhead : (b pos).toNat = lenSz)
      (hsz : 1 ≤ lenSz ∧ lenSz ≤ 4) (hpos : pos + 1 + lenSz ≤ bufSize)
      (hlen : Bytes.leNat b (pos + 1) lenSz = len) (hpositive : 1 ≤ len)
      (hrest : RunsAt b (pos + 1 + lenSz) prev rs) : RunsAt b pos prev (⟨len, none⟩ :: rs)
  | mapped {pos prev lenSz offSz len lcn : ℕ} {rs : List Run}
      (hhead : (b pos).toNat = lenSz + 16 * offSz) (hsz : 1 ≤ lenSz ∧ lenSz ≤ 4)
      (hoff : 1 ≤ offSz ∧ offSz ≤ 4) (hpos : pos + 1 + lenSz + offSz ≤ bufSize)
      (hlen : Bytes.leNat b (pos + 1) lenSz = len) (hpositive : 1 ≤ len)
      (hlcn : (lcn : ℤ) = prev + leInt b (pos + 1 + lenSz) offSz) (hfits : lcn + len ≤ 2 ^ 32)
      (hrest : RunsAt b (pos + 1 + lenSz + offSz) lcn rs) :
      RunsAt b pos prev (⟨len, some lcn⟩ :: rs)

/-- The first cluster that `read_nonresident` has for a run. -/
def Run.start (r : Run) (prev : ℕ) : ℕ := r.lcn.getD prev

/-- The byte that `read_nonresident` fetches for position `k` of a run that it has at `lcn`. -/
def runByte (fs : NtfsFs) (disk : Bytes) (lcn k : ℕ) : UInt8 :=
  disk (clusterLba fs lcn (k / fs.clusterSize) * 512 + k % fs.clusterSize)

/-- The byte that `read_nonresident` fetches for position `k` of a run list. -/
def storedByte (fs : NtfsFs) (disk : Bytes) : ℕ → List Run → ℕ → UInt8
  | _, [], _ => 0
  | prev, r :: rs, k =>
    if k < r.length * fs.clusterSize then runByte fs disk (r.start prev) k
    else storedByte fs disk (r.start prev) rs (k - r.length * fs.clusterSize)

/-- Position `k` of a run list is in a sparse run. -/
def SparseAt (fs : NtfsFs) : List Run → ℕ → Prop
  | [], _ => False
  | r :: rs, k =>
    if k < r.length * fs.clusterSize then r.lcn = none
    else SparseAt fs rs (k - r.length * fs.clusterSize)

/-- The clusters of a volume are those that `data_buf` can hold. -/
structure ClusterSizeOk (fs : NtfsFs) : Prop where
  pos : 1 ≤ fs.sectorsPerCluster
  le : fs.sectorsPerCluster ≤ 8
  size : fs.clusterSize = fs.sectorsPerCluster * 512

variable {fs : NtfsFs} {disk : Bytes}

lemma ClusterSizeOk.size_pos (h : ClusterSizeOk fs) : 0 < fs.clusterSize := by
  have := h.pos
  rw [h.size]
  omega

/-- The 8-bit count of a transfer is that of a whole cluster. -/
lemma ClusterSizeOk.count (h : ClusterSizeOk fs) :
    fs.sectorsPerCluster % 256 * 512 = fs.clusterSize := by
  have := h.le
  rw [h.size, Nat.mod_eq_of_lt (by omega)]

/-! ## Parsing a run -/

lemma addInt32_eq {a b : ℕ} {d : ℤ} (h : (b : ℤ) = a + d) (hb : b < 2 ^ 32) : addInt32 a d = b := by
  rw [addInt32, ← h]
  omega

/-- The end of a run list. -/
lemma wp_parseRun_done {b : Bytes} {pos prev : ℕ} (h : RunsAt b pos prev [])
    {Q : Option (ℕ × ℕ × ℤ) → NtfsState → Prop} {s : NtfsState} (hQ : Q none s) :
    wp (parseRun b pos) Q s := by
  cases h with
  | done hpos hend =>
    have hzero : Bytes.leNat b pos 1 = 0 := by simp [Bytes.leNat, hend]
    simp only [parseRun, wp_bind, wp_load, hzero, wp_ite, if_true, wp_pure]
    exact ⟨hpos, hQ⟩

/-- A run of a run list: its length, where the next one is, and a difference that leads from the
cluster before it to the first one of the run. -/
lemma wp_parseRun_cons {b : Bytes} {pos prev : ℕ} {r : Run} {rs : List Run} {s : NtfsState}
    (h : RunsAt b pos prev (r :: rs)) (hprev : prev < 2 ^ 32) :
    wp (parseRun b pos) (fun res s' => s' = s ∧ ∃ consumed off,
      res = some (consumed, r.length, off) ∧
      1 ≤ consumed ∧ RunsAt b (pos + consumed) (r.start prev) rs ∧
      addInt32 prev off = r.start prev) s := by
  have hone : Bytes.leNat b pos 1 = (b pos).toNat := by simp [Bytes.leNat]
  cases h with
  | sparse hhead hsz hpos hlen hpositive hrest =>
    rename_i lenSz len
    have hmod : lenSz % 16 = lenSz := Nat.mod_eq_of_lt (by omega)
    have hdiv : lenSz / 16 = 0 := Nat.div_eq_of_lt (by omega)
    simp only [parseRun, wp_bind, wp_load, hone, hhead, hmod, hdiv, wp_ite, wp_pure]
    refine ⟨by omega, ?_⟩
    rw [if_neg (by omega), if_neg (by omega), if_neg (by omega)]
    refine ⟨by omega, by omega, trivial, 1 + lenSz + 0, _, by rw [hlen], by omega, ?_, ?_⟩
    · rw [Nat.add_zero, ← Nat.add_assoc]
      exact hrest
    · rw [if_neg (by simp)]
      exact addInt32_eq (by simp [Run.start, Bytes.leNat]) hprev
  | mapped hhead hsz hoff hpos hlen hpositive hlcn hfits hrest =>
    rename_i lenSz offSz len lcn
    have hmod : (lenSz + 16 * offSz) % 16 = lenSz := by omega
    have hdiv : (lenSz + 16 * offSz) / 16 = offSz := by omega
    simp only [parseRun, wp_bind, wp_load, hone, hhead, hmod, hdiv, wp_ite, wp_pure]
    refine ⟨by omega, ?_⟩
    rw [if_neg (by omega), if_neg (by omega), if_neg (by omega)]
    refine ⟨by omega, by omega, trivial, 1 + lenSz + offSz, _, by rw [hlen], by omega, ?_, ?_⟩
    · rw [← Nat.add_assoc, ← Nat.add_assoc]
      exact hrest
    · refine addInt32_eq ?_ (show lcn < 2 ^ 32 by omega)
      have hlast : pos + 1 + lenSz + offSz - 1 = pos + lenSz + offSz := by omega
      rw [leInt, hlast] at hlcn
      simpa only [Run.start, Option.getD_some] using hlcn

/-! ## Copying a run -/

/-- The state after some transfers that changed nothing. -/
def After (s : NtfsState) (calls : ℕ) : NtfsState := { s with blk := { s.blk with calls := calls } }

/-- A read that cannot fail. -/
lemma wp_ioRead {s : NtfsState} (hs : s.blk.NoFail) (dr : Drive) (lba n : ℕ)
    {Q : Option Bytes → NtfsState → Prop}
    (hQ : Q (some (Bytes.clip (n % 256 * 512) (Bytes.shift (s.blk.disk dr) (lba * 512))))
      (After s (s.blk.calls + 1))) : wp (io (blkRead dr lba n)) Q s := by
  rw [io, wp_zoom, wp_blkRead hs]
  exact hQ

/-- The bytes of a run arrive in the caller's buffer, one after the other. -/
lemma wp_copyRun (hfs : ClusterSizeOk fs) {s : NtfsState} (hs : s.blk.NoFail) (lcn : ℕ)
    {v : CopyLoop} (hoff : v.runByteOff + v.remaining < 2 ^ 32)
    (hread : v.bytesRead + v.remaining < 2 ^ 32) :
    wp (copyRun fs lcn v) (fun r s' => (∃ n, s' = After s n) ∧ r.1 = true ∧
      r.2.bytesRead = v.bytesRead + v.remaining ∧
      r.2.out = Bytes.blit v.out v.bytesRead
        (fun k => runByte fs (s.blk.disk fs.dev) lcn (v.runByteOff + k)) v.remaining) s := by
  have hpos := hfs.size_pos
  refine wp_iter (fun w s' => (∃ n, s' = After s n) ∧ ∃ k ≤ v.remaining,
      w.runByteOff = v.runByteOff + k ∧ w.remaining = v.remaining - k ∧
      w.bytesRead = v.bytesRead + k ∧ w.out = Bytes.blit v.out v.bytesRead
        (fun k => runByte fs (s.blk.disk fs.dev) lcn (v.runByteOff + k)) k)
    (fun w _ => w.remaining) ?_ ?_ (show v.remaining < 2 ^ 32 by omega)
  · rintro ⟨o, rem, done, out⟩ _ ⟨⟨n, rfl⟩, k, hk, hw⟩
    obtain ⟨rfl, rfl, rfl, rfl⟩ : o = v.runByteOff + k ∧ rem = v.remaining - k ∧
      done = v.bytesRead + k ∧ out = _ := hw
    refine wp_ite_intro (fun hrem => ?_) fun hrem => (wp_pure _ _ _).mpr ?_
    · dsimp only at hrem
      rw [wp_bind]
      refine wp_ioRead (s := After s n) hs _ _ _ ?_
      have hwithin := Nat.mod_lt (v.runByteOff + k) hpos
      set within := (v.runByteOff + k) % fs.clusterSize with hwithin_eq
      set chunk := min (fs.clusterSize - within) (v.remaining - k) with hchunk
      have hchunk_pos : 0 < chunk := lt_min (by omega) hrem
      have hchunk_le : chunk ≤ v.remaining - k := min_le_right _ _
      have hchunk_in : chunk ≤ fs.clusterSize - within := min_le_left _ _
      refine (wp_pure _ _ _).mpr ⟨⟨⟨_, rfl⟩, k + chunk, by omega, ?_, ?_, ?_, ?_⟩, ?_⟩
      · change u32 (v.runByteOff + k + chunk) = _
        rw [u32, Nat.mod_eq_of_lt (by omega), Nat.add_assoc]
      · change v.remaining - k - chunk = _
        omega
      · change u32 (v.bytesRead + k + chunk) = _
        rw [u32, Nat.mod_eq_of_lt (by omega), Nat.add_assoc]
      · rw [← Bytes.blit_append]
        refine Bytes.blit_congr fun j hj => ?_
        -- the chunk ends inside of the cluster that it starts in
        have hsame := Bytes.div_mod_add (show within + j < fs.clusterSize by omega)
        change Bytes.clip _ _ (within + j) = runByte fs _ lcn (v.runByteOff + (k + j))
        rw [Bytes.clip_of_lt (by rw [hfs.count]; omega), ← Nat.add_assoc, runByte, hsame.1, hsame.2]
        rfl
      · change v.remaining - k - chunk < v.remaining - k
        omega
    · have hk' : k = v.remaining := by
        dsimp only at hrem
        omega
      subst hk'
      exact ⟨⟨n, rfl⟩, rfl, rfl, rfl⟩
  · exact ⟨⟨s.blk.calls, rfl⟩, 0, Nat.zero_le _, rfl, rfl, rfl, (Bytes.blit_zero_len _ _ _).symm⟩

/-! ## Reading through a run list -/

/-- A file whose data is described by the run list of the attribute at `attr`.  The list has
clusters for the whole file, and positions in it fit into 32 bits. -/
structure RunFile (fs : NtfsFs) (record : Bytes) (attr fileSize : ℕ) (runs : List Run) : Prop where
  header : attr + 34 ≤ bufSize
  runsAt : RunsAt record (attr + Bytes.leNat record (attr + 32) 2) 0 runs
  size_lt : fileSize < 2 ^ 32
  covers : fileSize ≤ clusters runs * fs.clusterSize
  total_le : clusters runs * fs.clusterSize ≤ 2 ^ 32

/-- The window reaches into a last run that ends at 4 GiB, where the 32-bit position wraps to 0. -/
def Wraps (fs : NtfsFs) (runs : List Run) (offset size : ℕ) : Prop :=
  0 < size ∧ clusters runs * fs.clusterSize = 2 ^ 32 ∧
    clusters runs.dropLast * fs.clusterSize < offset + size

instance (fs : NtfsFs) (runs : List Run) (offset size : ℕ) :
    Decidable (Wraps fs runs offset size) :=
  inferInstanceAs (Decidable (_ ∧ _ ∧ _))

lemma clusters_append (l l' : List Run) : clusters (l ++ l') = clusters l + clusters l' := by
  simp [clusters]

@[simp] lemma clusters_cons (r : Run) (l : List Run) :
    clusters (r :: l) = r.length + clusters l := by
  simp [clusters]

lemma RunsAt.length_pos {b : Bytes} {pos prev : ℕ} {r : Run} {rs : List Run}
    (h : RunsAt b pos prev (r :: rs)) : 1 ≤ r.length := by
  cases h with
  | sparse _ _ _ _ hpositive _ => exact hpositive
  | mapped _ _ _ _ _ hpositive _ _ _ => exact hpositive

lemma RunsAt.start_lt {b : Bytes} {pos prev : ℕ} {r : Run} {rs : List Run}
    (h : RunsAt b pos prev (r :: rs)) (hprev : prev < 2 ^ 32) : r.start prev < 2 ^ 32 := by
  cases h with
  | sparse => exact hprev
  | mapped _ _ _ _ _ hpositive _ hfits _ =>
    simp only [Run.start, Option.getD_some]
    omega

lemma RunsAt.pos_lt {b : Bytes} {pos prev : ℕ} {rs : List Run} (h : RunsAt b pos prev rs) :
    pos < bufSize := by
  cases h with
  | done hpos _ => exact hpos
  | sparse _ _ hpos _ _ _ => omega
  | mapped _ _ _ hpos _ _ _ _ _ => omega

/-- The bytes behind the first run of a list. -/
lemma storedByte_drop (prev : ℕ) (r : Run) (rs : List Run) (k : ℕ) :
    storedByte fs disk prev (r :: rs) (r.length * fs.clusterSize + k) =
      storedByte fs disk (r.start prev) rs k := by
  rw [storedByte, if_neg (by omega), Nat.add_sub_cancel_left]

/-- The variables of the loop over the runs when the runs `passed` are behind it and `rs` are left:
the position is that behind `passed`, and what the window has of them has been copied. -/
structure AtRun (fs : NtfsFs) (disk : Bytes) (record : Bytes) (runs : List Run) (offset size : ℕ)
    (v : RunLoop) (passed rs : List Run) : Prop where
  split : runs = passed ++ rs
  left : RunsAt record v.runs v.prevLcn rs
  prev : v.prevLcn < 2 ^ 32
  pos : v.vcnPos = clusters passed * fs.clusterSize
  pos_lt : v.vcnPos < 2 ^ 32
  stored : ∀ k, storedByte fs disk 0 runs (v.vcnPos + k) = storedByte fs disk v.prevLcn rs k
  read : v.bytesRead = min size (v.vcnPos - offset)
  out : ∀ i < v.bytesRead, v.out i = storedByte fs disk 0 runs (offset + i)

/-- The loop is past a run that ends at 4 GiB. -/
structure PastEnd (record : Bytes) (size : ℕ) (v : RunLoop) : Prop where
  left : RunsAt record v.runs v.prevLcn []
  read : v.bytesRead < size

section Step

variable {record : Bytes} {runs : List Run} {offset size : ℕ} {v : RunLoop} {passed rs : List Run}
  {r : Run}

/-- The bytes of the window that a run has. -/
lemma AtRun.byte (h : AtRun fs disk record runs offset size v passed (r :: rs)) {i : ℕ}
    (hlo : v.vcnPos ≤ offset + i) (hhi : offset + i < v.vcnPos + r.length * fs.clusterSize) :
    storedByte fs disk 0 runs (offset + i) =
      runByte fs disk (r.start v.prevLcn) (offset + i - v.vcnPos) := by
  obtain ⟨k, hk⟩ := Nat.exists_eq_add_of_le hlo
  rw [hk, h.stored k, storedByte, if_pos (by omega), Nat.add_sub_cancel_left]

/-- The loop has passed a run that ends below 4 GiB. -/
lemma AtRun.next (h : AtRun fs disk record runs offset size v passed (r :: rs)) {consumed n : ℕ}
    {out : Bytes} (hleft : RunsAt record (v.runs + consumed) (r.start v.prevLcn) rs)
    (hend : v.vcnPos + r.length * fs.clusterSize < 2 ^ 32)
    (hn : n = min size (v.vcnPos + r.length * fs.clusterSize - offset))
    (hout : ∀ i < n, out i = storedByte fs disk 0 runs (offset + i)) :
    AtRun fs disk record runs offset size
      ⟨v.runs + consumed, n, r.start v.prevLcn, v.vcnPos + r.length * fs.clusterSize, out⟩
      (passed ++ [r]) rs where
  split := by rw [h.split, List.append_assoc, List.singleton_append]
  left := hleft
  prev := h.left.start_lt h.prev
  pos := by
    rw [clusters_append, Nat.add_mul, ← h.pos]
    simp [clusters]
  pos_lt := hend
  stored k := by
    change storedByte fs disk 0 runs (v.vcnPos + r.length * fs.clusterSize + k) = _
    rw [Nat.add_assoc, h.stored, storedByte_drop]
  read := hn
  out := hout

end Step

lemma u32_of_lt {n : ℕ} (h : n < 2 ^ 32) : u32 n = n := Nat.mod_eq_of_lt h

lemma u32sub_of_le {a b : ℕ} (hba : b ≤ a) (ha : a < 2 ^ 32) : u32sub a b = a - b := by
  unfold u32sub u32
  omega

/-- A count that is too small is not what was asked for, whatever becomes of it as an `int`. -/
lemma int32_ne_of_lt {n m : ℕ} (h : n < m) : int32 n ≠ m := by
  have hle : int32 n ≤ n := by
    have hmod : u32 n ≤ n := Nat.mod_le _ _
    unfold int32
    split <;> omega
  omega

/-- What is left of the buffer gets less. -/
lemma rest_lt {a b c : ℕ} (h : a < b) (hc : 1 ≤ c) : b - (a + c) < b - a := by
  omega

/-- What `read_nonresident` does on a file: it comes back with the bytes it has for the window, or
short if the window reaches into a run that ends at 4 GiB. -/
lemma wp_readNonresident (hfs : ClusterSizeOk fs) {record : Bytes} {attr fileSize offset size : ℕ}
    {runs : List Run} (h : RunFile fs record attr fileSize runs) (hin : offset + size ≤ fileSize)
    (out : Bytes) {s : NtfsState} (hs : s.blk.NoFail) :
    wp (readNonresident fs record attr offset size out) (fun r s' => (∃ n, s' = After s n) ∧
      if Wraps fs runs offset size then r.1 ≠ size
      else r.1 = int32 size ∧
        ∀ i < size, r.2 i = storedByte fs (s.blk.disk fs.dev) 0 runs (offset + i)) s := by
  have hsize_lt := h.size_lt
  have hcovers := h.covers
  have htotal := h.total_le
  have hcs := hfs.size_pos
  simp only [readNonresident, wp_bind, wp_load]
  refine ⟨h.header, ?_⟩
  refine wp_iter (fun v s' => (∃ n, s' = After s n) ∧
      ((∃ passed rs, AtRun fs (s.blk.disk fs.dev) record runs offset size v passed rs) ∨
        (Wraps fs runs offset size ∧ PastEnd record size v)))
    (fun v _ => bufSize - v.runs) ?_ ⟨⟨s.blk.calls, rfl⟩, .inl ⟨[], runs, ?_⟩⟩ ?_
  · rintro v _ ⟨⟨n, rfl⟩, hv⟩
    refine wp_ite_intro (fun hlt => ?_) fun hge => ?_
    · rw [wp_bind]
      rcases hv with ⟨passed, rs, hv⟩ | ⟨hwraps, hv⟩
      · cases rs with
        | nil =>
          -- the runs cover the window, so it has been read
          have hall : v.vcnPos = clusters runs * fs.clusterSize := by
            rw [hv.pos, hv.split, List.append_nil]
          have hread := hv.read
          omega
        | cons r rs =>
          have hruns := hv.left.pos_lt
          refine wp_mono (wp_parseRun_cons hv.left hv.prev) ?_
          rintro _ _ ⟨rfl, consumed, off, rfl, hcons, hleft, hlcn⟩
          have hlen := hv.left.length_pos
          have hread := hv.read
          have hsum : v.vcnPos + (r.length * fs.clusterSize + clusters rs * fs.clusterSize) =
              clusters runs * fs.clusterSize := by
            rw [hv.pos, hv.split, clusters_append, clusters_cons, Nat.add_mul, Nat.add_mul]
          have hlen_pos : 0 < r.length * fs.clusterSize := Nat.mul_pos hlen hcs
          dsimp only
          rw [hlcn, u32_of_lt (show offset + size < 2 ^ 32 by omega)]
          rcases Nat.lt_or_ge (v.vcnPos + r.length * fs.clusterSize) (2 ^ 32) with hend | hend
          · have hruns_end : u32 (v.vcnPos + u32 (r.length * fs.clusterSize)) =
                v.vcnPos + r.length * fs.clusterSize := by
              rw [u32_of_lt (show r.length * fs.clusterSize < 2 ^ 32 by omega), u32_of_lt hend]
            rw [hruns_end]
            refine wp_ite_intro (fun hover => ?_) fun hover => (wp_pure _ _ _).mpr ?_
            · have hremaining : u32sub (min (offset + size) (v.vcnPos + r.length * fs.clusterSize))
                  (max offset v.vcnPos) = min (offset + size)
                  (v.vcnPos + r.length * fs.clusterSize) -
                    max offset v.vcnPos := u32sub_of_le (by omega) (by omega)
              rw [hremaining, wp_bind]
              refine wp_mono (wp_copyRun hfs (s := After s n) hs _ (by dsimp only; omega)
                (by dsimp only; omega)) ?_
              rintro ⟨ok, c⟩ _ ⟨⟨m, rfl⟩, hok, hcount, hbytes⟩
              dsimp only at hok hcount hbytes
              subst hok
              rw [if_pos rfl, wp_pure]
              have hcount' : c.bytesRead = min size
                  (v.vcnPos + r.length * fs.clusterSize - offset) := by
                omega
              refine ⟨⟨⟨m, rfl⟩, .inl ⟨_, rs, hv.next hleft hend hcount' fun i hi => ?_⟩⟩,
                rest_lt hruns hcons⟩
              have hi' : i < c.bytesRead := hi
              rw [hbytes]
              rcases Nat.lt_or_ge i v.bytesRead with hold | hnew
              · rw [Bytes.blit_of_not_mem (.inl hold), hv.out i hold]
              · rw [Bytes.blit_of_mem ⟨hnew, by omega⟩, hv.byte (by omega) (by omega)]
                congr 1
                omega
            · refine ⟨⟨⟨n, rfl⟩, .inl ⟨_, rs, hv.next hleft hend ?_ hv.out⟩⟩, rest_lt hruns hcons⟩
              omega
          · -- the last run ends at 4 GiB, and its end wraps to 0
            have hrs : rs = [] := by
              cases rs with
              | nil => rfl
              | cons r' rs' =>
                have hlen' := hleft.length_pos
                have hmore : fs.clusterSize ≤ clusters (r' :: rs') * fs.clusterSize := by
                  rw [clusters_cons, Nat.add_mul]
                  exact le_add_right (Nat.le_mul_of_pos_left _ hlen')
                omega
            subst hrs
            have hwrap : u32 (v.vcnPos + u32 (r.length * fs.clusterSize)) = 0 := by
              have hend' : v.vcnPos + r.length * fs.clusterSize = 2 ^ 32 := by omega
              unfold u32
              rw [Nat.add_mod_mod, hend', Nat.mod_self]
            rw [hwrap, if_neg (by omega), wp_pure]
            refine ⟨⟨⟨n, rfl⟩, .inr ⟨⟨by omega, by omega, ?_⟩, hleft, hlt⟩⟩, rest_lt hruns hcons⟩
            rw [hv.split, List.dropLast_concat, ← hv.pos]
            omega
      · refine wp_parseRun_done hv.left ((wp_pure _ _ _).mpr ⟨⟨n, rfl⟩, ?_⟩)
        rw [if_pos hwraps]
        exact int32_ne_of_lt hlt
    · refine (wp_pure _ _ _).mpr ⟨⟨n, rfl⟩, ?_⟩
      rcases hv with ⟨passed, rs, hv⟩ | ⟨-, hv⟩
      · have hread := hv.read
        have hnot : ¬Wraps fs runs offset size := by
          rintro ⟨hpositive, hfull, hlast⟩
          have hpos := hv.pos
          have hpos_lt := hv.pos_lt
          have hsplit := hv.split
          cases rs with
          | nil =>
            rw [List.append_nil] at hsplit
            rw [hsplit] at hfull
            omega
          | cons r rs =>
            -- what has been passed is no longer than all runs but the last
            have hshort : clusters passed ≤ clusters runs.dropLast := by
              rw [hsplit, List.dropLast_append_of_ne_nil (List.cons_ne_nil r rs), clusters_append]
              exact Nat.le_add_right _ _
            have := Nat.mul_le_mul_right fs.clusterSize hshort
            omega
        rw [if_neg hnot]
        have hall : v.bytesRead = size := by omega
        exact ⟨by rw [hall], fun i hi => hv.out i (by omega)⟩
      · exact absurd hv.read hge
  · exact ⟨rfl, h.runsAt, Nat.two_pow_pos 32, by simp [clusters], Nat.two_pow_pos 32,
      fun k => by rw [Nat.zero_add], by simp, fun i hi => absurd hi (Nat.not_lt_zero i)⟩
  · have hruns := h.runsAt.pos_lt
    exact lt_of_le_of_lt (Nat.sub_le _ _) (by decide)

/-! ## Sparse runs -/

instance decidableSparseAt (fs : NtfsFs) : (runs : List Run) → (k : ℕ) →
    Decidable (SparseAt fs runs k)
  | [], _ => inferInstanceAs (Decidable False)
  | r :: rs, k =>
    if h : k < r.length * fs.clusterSize then
      decidable_of_iff (r.lcn = none) (by rw [SparseAt, if_pos h])
    else
      have := decidableSparseAt fs rs (k - r.length * fs.clusterSize)
      decidable_of_iff (SparseAt fs rs (k - r.length * fs.clusterSize)) (by rw [SparseAt, if_neg h])

lemma streamByte_of_sparse {runs : List Run} {k : ℕ} (h : SparseAt fs runs k) :
    streamByte fs disk runs k = 0 := by
  induction runs generalizing k with
  | nil => exact h.elim
  | cons r rs ih =>
    rw [SparseAt] at h
    rw [streamByte]
    split at h
    · rename_i hk
      rw [if_pos hk, h]
    · rename_i hk
      rw [if_neg hk]
      exact ih h

/-- A mapped run is fetched from where it is. -/
lemma runByte_mapped (hfs : ClusterSizeOk fs) {lcn len k : ℕ} (hk : k < len * fs.clusterSize)
    (hfits : lcn + len ≤ 2 ^ 32) :
    runByte fs disk lcn k = disk ((fs.partLba + lcn * fs.sectorsPerCluster) * 512 + k) := by
  have hidx : k / fs.clusterSize < len := (Nat.div_lt_iff_lt_mul hfs.size_pos).mpr hk
  have hsplit := Nat.div_add_mod k fs.clusterSize
  rw [runByte, clusterLba, u32_of_lt (by omega)]
  refine congrArg disk ?_
  rw [hfs.size] at hsplit ⊢
  generalize k / (fs.sectorsPerCluster * 512) = idx at hsplit
  generalize k % (fs.sectorsPerCluster * 512) = rest at hsplit
  rw [← hsplit]
  ring

/-- Outside of sparse runs the bytes fetched are those of the stream. -/
lemma storedByte_of_not_sparse (hfs : ClusterSizeOk fs) {b : Bytes} {pos prev k : ℕ}
    {runs : List Run} (h : RunsAt b pos prev runs) (hk : ¬SparseAt fs runs k) :
    storedByte fs disk prev runs k = streamByte fs disk runs k := by
  induction h generalizing k with
  | done => rfl
  | sparse _ _ _ _ _ _ ih =>
    rw [SparseAt] at hk
    rw [storedByte, streamByte]
    split at hk
    · exact absurd rfl hk
    · rename_i hlt
      rw [if_neg hlt, if_neg hlt]
      exact ih hk
  | mapped _ _ _ _ _ _ _ hfits _ ih =>
    rw [SparseAt] at hk
    rw [storedByte, streamByte]
    split at hk
    · rename_i hlt
      rw [if_pos hlt, if_pos hlt]
      exact runByte_mapped hfs hlt hfits
    · rename_i hlt
      rw [if_neg hlt, if_neg hlt]
      exact ih hk

/-- The byte fetched is that of the stream unless it is in a sparse run and not zero. -/
lemma storedByte_eq_iff (hfs : ClusterSizeOk fs) {b : Bytes} {pos prev k : ℕ} {runs : List Run}
    (h : RunsAt b pos prev runs) :
    storedByte fs disk prev runs k = streamByte fs disk runs k ↔
      (SparseAt fs runs k → storedByte fs disk prev runs k = 0) := by
  by_cases hk : SparseAt fs runs k
  · rw [streamByte_of_sparse hk, forall_prop_of_true hk]
  · exact iff_of_true (storedByte_of_not_sparse hfs h hk) fun hk' => absurd hk' hk

lemma int32_eq_iff {n : ℕ} (h : n < 2 ^ 32) : int32 n = n ↔ n < 2 ^ 31 := by
  rw [int32, u32_of_lt h]
  split
  · exact iff_of_true rfl ‹_›
  · exact iff_of_false (by omega) ‹_›

/-- `read_nonresident` returns what the run list describes exactly if the count fits into an `int`,
the window does not reach into a run that ends at 4 GiB, and the clusters fetched for the sparse
runs of the window hold zeros. -/
theorem readNonresident_exact_iff (hfs : ClusterSizeOk fs) {record : Bytes}
    {attr fileSize offset size : ℕ} {runs : List Run} (h : RunFile fs record attr fileSize runs)
    (hin : offset + size ≤ fileSize) (out : Bytes) {s : NtfsState} (hs : s.blk.NoFail) :
    wp (readNonresident fs record attr offset size out) (fun r _ => r.1 = size ∧
        ∀ i < size, r.2 i = streamByte fs (s.blk.disk fs.dev) runs (offset + i)) s ↔
      size < 2 ^ 31 ∧ ¬Wraps fs runs offset size ∧
        ∀ i < size, SparseAt fs runs (offset + i) →
          storedByte fs (s.blk.disk fs.dev) 0 runs (offset + i) = 0 := by
  have hsize : size < 2 ^ 32 := by
    have := h.size_lt
    omega
  obtain ⟨r, s', hrun, -, hr⟩ := wp_readNonresident hfs h hin out hs
  rw [wp_iff_of_eq hrun]
  by_cases hwraps : Wraps fs runs offset size
  · rw [if_pos hwraps] at hr
    exact iff_of_false (fun hgood => hr hgood.1) fun hgood => hgood.2.1 hwraps
  · rw [if_neg hwraps] at hr
    rw [hr.1, int32_eq_iff hsize]
    refine and_congr_right fun _ => ?_
    rw [and_iff_right hwraps]
    refine forall₂_congr fun i hi => ?_
    rw [hr.2 i hi]
    exact storedByte_eq_iff hfs h.runsAt

/-! ## A small file -/

/-- A volume with clusters of one sector. -/
def smallFs : NtfsFs := ⟨⟨0, 0⟩, 0, 1, 512, 10, 1024, 2, 4096⟩

/-- A record with an attribute at 0 whose runs are at 64: clusters 5 and 6, a sparse cluster, and
cluster 3. -/
def smallRecord : Bytes := fun i =>
  if i < 64 then if i = 32 then 64 else 0
  else [0x11, 2, 5, 0x01, 1, 0x11, 1, 0xFE, 0].getD (i - 64) 0

/-- The runs of the small file. -/
def smallRuns : List Run := [⟨2, some 5⟩, ⟨1, none⟩, ⟨1, some 3⟩]

/-- A drive of equal bytes, and nothing else that matters. -/
def filledState (v : UInt8) : NtfsState where
  blk := ⟨fun _ _ => v, fun _ => false, 0, []⟩
  mftBuf := Bytes.zeros
  indxBuf := Bytes.zeros
  fsPoolUsed := 1
  nodePool := fun _ => rootNode smallFs
  nodePoolUsed := 1

lemma smallFs_ok : ClusterSizeOk smallFs := ⟨by decide, by decide, by decide⟩

lemma smallFile : RunFile smallFs smallRecord 0 2048 smallRuns where
  header := by decide
  runsAt :=
    @RunsAt.mapped smallRecord 64 0 1 1 2 5 _ (by decide) (by decide) (by decide)
      (by decide) (by decide)
      (by decide) (by decide) (by decide)
      (@RunsAt.sparse smallRecord 67 5 1 1 _ (by decide) (by decide) (by decide)
        (by decide) (by decide)
        (@RunsAt.mapped smallRecord 69 5 1 1 1 3 [] (by decide) (by decide) (by decide) (by decide)
          (by decide) (by decide) (by decide) (by decide) (.done (by decide) (by decide))))
  size_lt := by decide
  covers := by decide
  total_le := by decide

lemma storedByte_zeros (prev : ℕ) (runs : List Run) (k : ℕ) :
    storedByte fs (fun _ => 0) prev runs k = 0 := by
  induction runs generalizing prev k with
  | nil => rfl
  | cons r rs ih =>
    rw [storedByte]
    split
    · rfl
    · exact ih _ _

/-- A window from the sparse cluster into the next one, on a drive of zeros. -/
theorem readNonresident_exact_iff_zeros :
    wp (readNonresident smallFs smallRecord 0 1530 10 Bytes.zeros) (fun r _ => r.1 = (10 : ℕ) ∧
      ∀ i < 10, r.2 i = streamByte smallFs (fun _ => 0) smallRuns (1530 + i)) (filledState 0) := by
  have h := @readNonresident_exact_iff smallFs smallFs_ok smallRecord 0 2048 1530 10
    smallRuns smallFile
    (by decide) Bytes.zeros (filledState 0) fun _ => rfl
  exact h.mpr ⟨by decide, by decide, fun _ _ _ => storedByte_zeros _ _ _⟩

/-- On a drive of ones the sparse cluster is not read as zeros. -/
theorem not_readNonresident_exact :
    ¬∀ (fs : NtfsFs) (record : Bytes) (attr fileSize offset size : ℕ)
    (runs : List Run) (out : Bytes) (s : NtfsState), ClusterSizeOk fs →
    RunFile fs record attr fileSize runs → offset + size ≤ fileSize → s.blk.NoFail →
    wp (readNonresident fs record attr offset size out) (fun r _ => r.1 = size ∧
      ∀ i < size, r.2 i = streamByte fs (s.blk.disk fs.dev) runs (offset + i)) s := by
  intro h
  have hgood := h smallFs smallRecord 0 2048 1024 1 smallRuns Bytes.zeros (filledState 1) smallFs_ok
    smallFile (by decide) fun _ => rfl
  obtain ⟨r, s', hrun, -, hr⟩ := @wp_readNonresident smallFs smallFs_ok smallRecord 0 2048 1024 1
    smallRuns smallFile (by decide) Bytes.zeros (filledState 1) fun _ => rfl
  rw [wp_iff_of_eq hrun] at hgood
  rw [if_neg (by decide)] at hr
  have hzero := hgood.2 0 Nat.one_pos
  rw [hr.2 0 Nat.one_pos] at hzero
  exact absurd hzero (by decide)

end Ntfs

end CoolFrost

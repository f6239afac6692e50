import CoolFrost.Fs.Fat32.Catalogue
import CoolFrost.Fs.Fat32.TableDrive

/-!
# FAT32: files near 4 GiB

The size of a file has 32 bits in its directory entry, and so have the positions of sectors in
`fat32_read` and `fat32_write`.  The end of the sector at `2 ^ 32 - 512` is position 0 to them: that
sector is passed over, and a window that reaches into it is cut off in front of it.
-/

namespace CoolFrost

open Program

namespace Fat32

variable {fs : Fat32Fs} {v : Volume}

/-! ## Reading -/

/-- The node is that of a file with the clusters `l`, which hold all its bytes. -/
structure OpenFile (fs : Fat32Fs) (v : Volume) (node : ℕ) (l : List ℕ) : Prop where
  file : (v.nodes node).type = .file
  fs_eq : (v.nodes node).fi.fs = fs
  chain : FileChain fs v.fat (v.nodes node).inode l
  cover : (v.nodes node).size ≤ l.length * clusterSize fs

lemma visible_eq_iff {offset n : ℕ} : visible offset n = n ↔ n = 0 ∨ offset + n ≤ 2 ^ 32 - 512 := by
  rw [visible]
  omega

/-- The windows of reads below 2 GiB have no wrapped positions. -/
lemma noWrap_of_short (hl : Layout fs) {offset n : ℕ} (hn : n < 2 ^ 31)
    (hend : offset + n < 2 ^ 32) :
    NoWrap fs offset n := by
  have hspc := hl.spc_le
  unfold fat32MaxClusterSectors at hspc
  rcases Nat.lt_or_ge (2 ^ 32 - 512) (offset + n) with hlt | hge
  · refine .inr ⟨by omega, .inl ?_⟩
    rw [clusterSize]
    omega
  · exact .inl hge

/-- `fat32_read` returns all bytes of the window that are in the file, unless the last of them are
in the sector at `2 ^ 32 - 512`. -/
lemma wp_read_iff (hl : Layout fs) {s : Fat32State} (hs : Sound fs s) {node offset size : ℕ}
    {l : List ℕ} {out : Bytes} (hfile : OpenFile fs ((fat32View fs).view s) node l)
    (hmax : (s.nodePool node).size < 2 ^ 32) (hsize : size < 2 ^ 31) :
    wp (fat32Read node offset size out) (fun r _ => r =
        ((inFile (s.nodePool node) offset size : ℤ), Bytes.blit out 0
          (fun j => ((fat32View fs).view s).data (fileAddr fs l (offset + j)))
          (inFile (s.nodePool node) offset size))) s ↔
      inFile (s.nodePool node) offset size = 0 ∨
        offset + inFile (s.nodePool node) offset size ≤ 2 ^ 32 - 512 := by
  have hle : inFile (s.nodePool node) offset size ≤ size := min_le_left _ _
  have hend : offset < (s.nodePool node).size →
      offset + inFile (s.nodePool node) offset size < 2 ^ 32 := by
    rw [inFile]
    omega
  have hread := wp_read_visible hl out hfile.file hfile.fs_eq hfile.chain hfile.cover hmax
    (fun hlt => noWrap_of_short hl (hle.trans_lt hsize) (hend hlt)) s hs rfl
  obtain ⟨r, s', hrun, -, -, hr⟩ := hread
  rw [view_nodes] at hr
  rw [← visible_eq_iff]
  obtain ⟨n, hn⟩ : ∃ n, n = visible offset (inFile (s.nodePool node) offset size) := ⟨_, rfl⟩
  have hlow : n ≤ inFile (s.nodePool node) offset size := by
    rw [hn, visible]
    omega
  rw [← hn] at hr ⊢
  constructor
  · rintro ⟨r', s'', hrun', hr'⟩
    obtain rfl : r = r' := congrArg Prod.fst (Option.some.inj (hrun.symm.trans hrun'))
    have hret := congrArg Prod.fst (hr.symm.trans hr')
    rw [int32_of_lt (by omega)] at hret
    exact Int.ofNat.inj hret
  · rintro rfl
    refine ⟨r, s', hrun, ?_⟩
    rw [hr, int32_of_lt (by omega)]

/-- `fat32_read` returns all bytes of the window that are in the file exactly when none of them is
in the sector at `2 ^ 32 - 512`. -/
theorem read_exact_iff_below_lastSector (hl : Layout fs) {s : Fat32State} (hs : Sound fs s)
    {node : ℕ} {l : List ℕ} (hfile : OpenFile fs ((fat32View fs).view s) node l)
    (hmax : (s.nodePool node).size < 2 ^ 32) (offset size : ℕ)
    (hsize : size < 2 ^ 31) (out : Bytes) :
    wp (fat32Read node offset size out) (fun r _ => r =
        ((inFile (s.nodePool node) offset size : ℤ), Bytes.blit out 0
          (fun j => ((fat32View fs).view s).data (fileAddr fs l (offset + j)))
          (inFile (s.nodePool node) offset size))) s ↔
      inFile (s.nodePool node) offset size = 0 ∨
        offset + inFile (s.nodePool node) offset size ≤ 2 ^ 32 - 512 :=
  wp_read_iff hl hs hfile hmax hsize

/-! ## Writing -/

/-- The run of sectors that is found lies in the cluster. -/
lemma sectorWindow_range {spc pos offset size n a b : ℕ} {found : Option (ℕ × ℕ)} (hn : n ≤ spc)
    (hfound : ∀ a b, found = some (a, b) → a ≤ b ∧ b < spc - n)
    (h : sectorWindow spc pos offset size n found = some (a, b)) : a ≤ b ∧ b < spc := by
  induction n generalizing found with
  | zero => exact hfound a b h
  | succ n ih =>
    simp only [sectorWindow] at h
    split_ifs at h with hskip hstop
    · refine ih (Nat.le_of_succ_le hn) (fun a b hab => ?_) h
      have := hfound a b hab
      omega
    · have := hfound a b h
      omega
    · refine ih (Nat.le_of_succ_le hn) ?_ h
      rintro a b ⟨⟩
      cases found with
      | none => exact ⟨le_rfl, by omega⟩
      | some p =>
        have := hfound p.1 p.2 rfl
        simp only [Option.getD_some]
        omega

lemma copyIn_le {firstS pos offset size : ℕ} {input : Bytes} (n s : ℕ) {buf : Bytes} {done : ℕ}
    (h : done ≤ size) : (copyIn firstS pos offset size input n s (buf, done)).2 ≤ size := by
  induction n generalizing s buf done with
  | zero => exact h
  | succ n ih =>
    rw [copyIn]
    refine ih (s + 1) ?_
    have hcopy : (sectorCopy (u32 (pos + s * 512)) offset (size - done)).2 ≤ size - done :=
      min_le_right _ _
    omega

/-- Whatever the window, the loop of `fat32_write` only changes the data area, and it does not count
more bytes than it was given. -/
lemma wp_writeLoop_le (hl : Layout fs) {l : List ℕ} {offset size : ℕ} {w : FileLoop} (input : Bytes)
    (hchain : ChainAt fs v.fat w.cluster l) (hdone : w.done ≤ size) :
    (fat32View fs).wp (writeLoop fs offset size input w) (fun r v' => r ≤ size ∧
      ∃ d, v' = { v with data := d }) v := by
  have hspc := hl.spc_le
  unfold fat32MaxClusterSectors at hspc
  refine View.wp_iter_rounds (fun n w' v' => w'.done ≤ size ∧
      (∃ l', l'.length = n ∧ ChainAt fs v.fat w'.cluster l') ∧ ∃ d, v' = { v with data := d }) ?_
    ⟨hdone, ⟨l, rfl, hchain⟩, v.data, rfl⟩ ?_
  · rintro n w' _ ⟨hle, ⟨l', rfl, hchain'⟩, d, rfl⟩
    refine View.wp_ite (fun hc => ?_) fun _ => View.wp_pure ⟨hle, d, rfl⟩
    obtain ⟨l'', rfl, hrange, hrest⟩ := ChainAt.step hchain' hc.2
    cases hwin : sectorWindow fs.sectorsPerCluster w'.pos offset size fs.sectorsPerCluster none with
    | none => exact View.wp_pure ⟨hle, d, rfl⟩
    | some p =>
      obtain ⟨a, b⟩ := p
      have hab := sectorWindow_range le_rfl (fun _ _ h => by simp at h) hwin
      simp only [clusterToLba_eq hl hrange, Nat.add_assoc]
      refine View.wp_bind (wp_readData _ (b - a + 1) (by omega)) ?_
      rintro _ _ ⟨rfl, rfl⟩
      refine View.wp_bind (wp_writeData hl _ (b - a + 1) (by omega) _) ?_
      rintro _ _ ⟨rfl, rfl⟩
      refine View.wp_ite (fun _ => ?_) fun h => absurd rfl h
      refine View.wp_bind (wp_next hl hrange.lt) ?_
      rintro _ _ ⟨rfl, rfl⟩
      exact View.wp_pure ⟨l''.length, Nat.lt_succ_self _, copyIn_le _ _ hle,
        ⟨l'', rfl, hrest⟩, _, rfl⟩
  · have hlen := hchain.length_le hl
    have hfuel := hl.lt_loopFuel
    omega

/-- The file does not end past 4 GiB, wherever the loop starts. -/
lemma wp_writeLoop_end (hl : Layout fs) (hpow : clusterSize fs ∣ 2 ^ 32) {l : List ℕ}
    {offset size first cluster pos k : ℕ} (input : Bytes)
    (hchain : ChainAt fs v.fat first l) (hoffset : offset < 2 ^ 32)
    (hcond : offset + size < 2 ^ 32 ∨ clusterSize fs ≤ offset)
    (hsize : offset + size ≤ l.length * clusterSize fs) (hpos : pos = k * clusterSize fs)
    (hdrop : ChainAt fs v.fat cluster (l.drop k)) (hle : pos ≤ offset) (hk : k ≤ l.length)
    (hin : k < l.length → offset < pos + clusterSize fs) :
    (fat32View fs).wp (writeLoop fs offset size input ⟨cluster, pos, 0, Bytes.zeros⟩)
      (fun r v' => offset + r < 2 ^ 32 ∧ offset + r ≤ l.length * clusterSize fs ∧
        ∃ d, v' = { v with data := d }) v := by
  rcases hcond with hend | hcs
  · refine View.wp_mono (wp_writeLoop_le hl input hdrop (Nat.zero_le size)) ?_
    rintro r v' ⟨hr, hv'⟩
    exact ⟨by omega, by omega, hv'⟩
  · have hvis : offset + visible offset size < 2 ^ 32 ∧ visible offset size ≤ size := by
      rw [visible]
      omega
    have hwrap : NoWrap fs offset size := .inr ⟨hoffset, .inr ⟨hcs, hpow⟩⟩
    have hcover : offset + visible offset size ≤ l.length * clusterSize fs := by omega
    refine View.wp_mono (wp_writeLoop hl input hwrap hcover
      (fun c hc => hchain.inside_of_mem hc) (ChainAt.nodup hl hchain)
      (VisibleAt.start hl hwrap hcover hpos hdrop hle hk hin) rfl) ?_
    rintro r v' ⟨rfl, d, hv', -⟩
    exact ⟨hvis.1, hcover, d, hv'⟩

/-- A file that can be written: the directory entry of the node is in the data area, and the size
fits into it. -/
structure WritableFile (fs : Fat32Fs) (v : Volume) (node : ℕ) (l : List ℕ) : Prop
    extends OpenFile fs v node l where
  slot : HasSlot fs (v.nodes node)
  bound : (v.nodes node).size < 2 ^ 32

/-- What the size of a file is after a call of `fat32_write` that returned `n`: the size in the
node, which has 32 bits, and if the call wrote anything, the size in the directory entry. -/
structure SizeRight (fs : Fat32Fs) (v : Volume) (node offset : ℕ) (n : ℤ) : Prop where
  entry : 0 < n → deSize v.data (slotAddr fs (v.nodes node)) = (v.nodes node).size
  reach : 0 < n → (offset : ℤ) + n ≤ (v.nodes node).size
  bound : (v.nodes node).size < 2 ^ 32

/-- A call that writes nothing. -/
lemma WritableFile.sizeRight {node offset : ℕ} {l : List ℕ} {n : ℤ} (h : WritableFile fs v node l)
    (hn : n ≤ 0) : SizeRight fs v node offset n :=
  ⟨fun h => absurd h (Int.not_lt.mpr hn), fun h => absurd h (Int.not_lt.mpr hn), h.bound⟩

/-- A positive `int` is the number that it was made of. -/
lemma int32_of_pos {n : ℕ} (hn : n < 2 ^ 32) (h : 0 < int32 n) : int32 n = n := by
  have hu : u32 n = n := Nat.mod_eq_of_lt hn
  rw [int32, hu] at h ⊢
  split_ifs at h ⊢ <;> omega

/-- Storing the bytes of a write leaves the size right. -/
lemma wp_writeWindow_right (hl : Layout fs) (hpow : clusterSize fs ∣ 2 ^ 32) {node offset n : ℕ}
    {l : List ℕ} (input : Bytes) (hfile : WritableFile fs v node l) (hne : l ≠ [])
    (hoffset : offset < 2 ^ 32) (hcond : offset + n < 2 ^ 32 ∨ clusterSize fs ≤ offset)
    (hsize : offset + n ≤ l.length * clusterSize fs) :
    (fat32View fs).wp (writeWindow fs node offset n (v.nodes node).inode input) (fun r v' =>
      SizeRight fs v' node offset r ∧ WritableFile fs v' node l) v := by
  obtain ⟨⟨htype, hfs, hchain, hcover⟩, hslot, hbound⟩ := id hfile
  obtain ⟨-, hchain'⟩ : l ≠ [] ∧ ChainAt fs v.fat (v.nodes node).inode l :=
    hchain.resolve_left fun h => hne h.2
  refine View.wp_bind (wp_skipClusters hl hchain') ?_
  rintro ⟨cluster, pos⟩ v ⟨rfl, k, hk, hpos, hdrop, hle, hin⟩
  refine View.wp_bind
    (wp_writeLoop_end hl hpow input hchain' hoffset hcond hsize hpos hdrop hle hk hin) ?_
  rintro r _ ⟨hend, hend', d, rfl⟩
  refine View.wp_ite (fun _ => View.wp_pure ?_) fun _ => ?_
  · have hsame : WritableFile fs { v with data := d } node l :=
      ⟨⟨htype, hfs, hchain, hcover⟩, hslot, hbound⟩
    exact ⟨hsame.sizeRight (by decide), hsame⟩
  · refine View.wp_bind (wp_modifyNode node _) ?_
    rintro _ _ rfl
    refine View.wp_bind (wp_flushDirent hl ?_ ?_) ?_
    · simpa only [Function.update_self] using hfs
    · simpa only [Function.update_self] using ⟨hslot.dirent, hslot.lba, hslot.off⟩
    · rintro _ _ ⟨-, rfl⟩
      have hmax : max (v.nodes node).size (offset + r) < 2 ^ 32 := max_lt hbound hend
      refine View.wp_pure ⟨⟨fun _ => ?_, fun hpos => ?_, ?_⟩, ⟨⟨?_, ?_, ?_, ?_⟩, ?_, ?_⟩⟩ <;>
        simp only [Function.update_self]
      · exact deSize_deSetClusterSize hmax
      · rw [int32_of_pos (by omega) hpos]
        omega
      · exact hmax
      · exact htype
      · exact hfs
      · exact hchain
      · exact max_le hcover hend'
      · exact ⟨hslot.dirent, hslot.lba, hslot.off⟩
      · exact hmax

/-- A write at an offset inside the first cluster has to end before 4 GiB. -/
def EndsInRange (fs : Fat32Fs) (offset size : ℕ) : Prop :=
  offset + size < 2 ^ 32 ∨ clusterSize fs ≤ offset

/-- One call of `fat32_write` leaves the size right. -/
lemma wp_write_right (hl : Layout fs) (hpow : clusterSize fs ∣ 2 ^ 32) {node offset size : ℕ}
    {l : List ℕ} (input : Bytes) (hfile : WritableFile fs v node l) (hsize : size < 2 ^ 32)
    (hcond : EndsInRange fs offset size) :
    (fat32View fs).wp (fat32Write node offset size input) (fun r v' =>
      SizeRight fs v' node offset r ∧ ∃ l', WritableFile fs v' node l') v := by
  by_cases hcall : size = 0 ∨ (v.nodes node).size < offset
  · refine View.wp_get fun s _ hs => ?_
    have hnodes : s.nodePool = v.nodes := congrArg Volume.nodes hs
    simp only [hnodes, hfile.file, VfsType.isFile, Bool.not_true, Bool.false_eq_true, if_false]
    refine View.wp_ite (fun _ => View.wp_pure ⟨hfile.sizeRight le_rfl, l, hfile⟩) fun h0 => ?_
    rw [if_pos (hcall.resolve_left h0)]
    exact View.wp_pure ⟨hfile.sizeRight (by decide), l, hfile⟩
  · obtain ⟨h0, hoffset⟩ : size ≠ 0 ∧ offset ≤ (v.nodes node).size := by omega
    have hlow : offset < 2 ^ 32 := hoffset.trans_lt hfile.bound
    refine wp_write_grown hl hfile.file hfile.fs_eq hfile.chain hoffset (Nat.pos_of_ne_zero h0)
      (by omega) (fun _ => ⟨hfile.sizeRight (by decide), l, hfile⟩) fun v' new first hgrown => ?_
    have hnode : v'.nodes node = { v.nodes node with inode := first } := by
      simp only [hgrown.nodes, Function.update_self]
    have hgrew : WritableFile fs v' node (l ++ new) := by
      refine ⟨⟨?_, ?_, ?_, ?_⟩, ?_, ?_⟩ <;> rw [hnode]
      · exact hfile.file
      · exact hfile.fs_eq
      · exact .inr ⟨hgrown.nonempty, hgrown.chain⟩
      · refine hfile.cover.trans (Nat.mul_le_mul_right _ ?_)
        rw [List.length_append]
        omega
      · exact ⟨hfile.slot.dirent, hfile.slot.lba, hfile.slot.off⟩
      · exact hfile.bound
    refine View.wp_ite (fun _ => View.wp_pure ⟨hgrew.sizeRight le_rfl, _, hgrew⟩) fun hpos => ?_
    have hend : offset + (writableEnd fs offset size (l ++ new).length - offset) =
        writableEnd fs offset size (l ++ new).length := by omega
    have hfirst : (v'.nodes node).inode = first := by rw [hnode]
    have hle : writableEnd fs offset size (l ++ new).length ≤ offset + size := min_le_left _ _
    have hwindow := wp_writeWindow_right hl hpow input hgrew hgrown.nonempty hlow
      (hcond.imp_left fun h => hend.trans_lt (hle.trans_lt h)) (hend.trans_le (min_le_right _ _))
    rw [hfirst] at hwindow
    refine View.wp_mono hwindow ?_
    rintro r v'' ⟨hright, hfile''⟩
    exact ⟨hright, _, hfile''⟩

/-! ## Sequences of writes -/

/-- A call of `fat32_write`. -/
structure WriteCall where
  offset : ℕ
  size : ℕ
  input : Bytes

/-- The calls `cs` for a node, one after the other: after each of them the size is right. -/
def SizesRight (fs : Fat32Fs) (node : ℕ) : List WriteCall → Fat32State → Prop
  | [], _ => True
  | c :: cs, s => wp (fat32Write node c.offset c.size c.input) (fun n s' =>
      SizeRight fs ((fat32View fs).view s') node c.offset n ∧ SizesRight fs node cs s') s

lemma sizesRight_of_endsInRange (hl : Layout fs) (hpow : clusterSize fs ∣ 2 ^ 32) {node : ℕ}
    {cs : List WriteCall} (hcs : ∀ c ∈ cs, c.size < 2 ^ 32 ∧ EndsInRange fs c.offset c.size)
    {s : Fat32State} (hs : Sound fs s) {l : List ℕ}
    (hfile : WritableFile fs ((fat32View fs).view s) node l) : SizesRight fs node cs s := by
  induction cs generalizing s l with
  | nil => trivial
  | cons c cs ih =>
    obtain ⟨hsize, hcond⟩ := hcs c List.mem_cons_self
    refine wp_mono (wp_write_right hl hpow c.input hfile hsize hcond s hs rfl) ?_
    rintro n s' ⟨hs', hright, l', hfile'⟩
    exact ⟨hright, ih (fun c hc => hcs c (List.mem_cons_of_mem _ hc)) hs' hfile'⟩

/-- In every sequence of writes that end below 4 GiB or start behind the first cluster, the size in
the directory entry is that in the node, and the file never ends past 4 GiB. -/
theorem sizes_right (hl : Layout fs) (hpow : clusterSize fs ∣ 2 ^ 32) {s : Fat32State}
    (hs : Sound fs s) {node : ℕ} {l : List ℕ}
    (hfile : WritableFile fs ((fat32View fs).view s) node l) (cs : List WriteCall)
    (hcs : ∀ c ∈ cs, c.size < 2 ^ 32 ∧ EndsInRange fs c.offset c.size) : SizesRight fs node cs s :=
  sizesRight_of_endsInRange hl hpow hcs hs hfile

/-! ## A file of `2 ^ 32 - 1` bytes -/

/-- A volume of 4 GiB with clusters of 1024 bytes. -/
def hugeFs : Fat32Fs where
  id := 0
  dev := ⟨3, 0⟩
  partLba := 0
  sectorsPerCluster := 2
  reservedSectors := 1
  numFats := 1
  fatSize := 32770
  rootCluster := 2
  fatStartLba := 1
  dataStartLba := 32771
  totalSectors := 8421383
  totalClusters := 4194306

/-- The root directory is on cluster 2, the file on the clusters from 3 on; the last cluster is
free. -/
def hugeVolume : Volume where
  fat := chainFat (fun c => if c = 2 then fat32Eoc else 0) 3 4194304 4194304
  data := newEntry [70, 32, 32, 32, 32, 32, 32, 32, 32, 32, 32] 3 (2 ^ 32 - 1)
  nodes := fun _ => ⟨[70], .file, 2 ^ 32 - 1, 3, none, ⟨hugeFs, true, 32771, 0⟩⟩
  used := 1

lemma inFile_huge (offset size : ℕ) :
    inFile ((stateWith hugeFs hugeVolume).nodePool 0) offset size =
    min size (2 ^ 32 - 1 - offset) :=
  rfl

lemma hugeFs_layout : Layout hugeFs := by
  constructor <;> decide

lemma hugeState_sound : Sound hugeFs (stateWith hugeFs hugeVolume) :=
  stateWith_sound rfl (by decide)

lemma hugeState_view : (fat32View hugeFs).view (stateWith hugeFs hugeVolume) = hugeVolume := by
  refine stateWith_view hugeFs_layout (fun c => ?_) fun c hc => ?_
  · simp only [hugeVolume, chainFat, fat32Eoc]
    split_ifs <;> omega
  · have hc' : 4194308 ≤ c := hc
    simp only [hugeVolume, chainFat]
    rw [if_neg (by omega), if_neg (by omega)]

lemma hugeVolume_file : OpenFile hugeFs hugeVolume 0 (List.range' 3 4194304) := by
  refine ⟨rfl, rfl, .inr ⟨by simp, ?_⟩, ?_⟩
  · exact chainAt_run (by decide) (by decide) (by decide)
  · rw [List.length_range']
    exact (by decide : 2 ^ 32 - 1 ≤ 4194304 * (2 * 512))

lemma hugeState_file : OpenFile hugeFs ((fat32View hugeFs).view (stateWith hugeFs hugeVolume)) 0
    (List.range' 3 4194304) := by
  rw [hugeState_view]
  exact hugeVolume_file

lemma hugeState_size : ((stateWith hugeFs hugeVolume).nodePool 0).size < 2 ^ 32 :=
  (by decide : 2 ^ 32 - 1 < 2 ^ 32)

theorem read_exact_iff_below_lastSector_huge :
    wp (fat32Read 0 1000 100 Bytes.zeros) (fun r _ => r =
      ((inFile ((stateWith hugeFs hugeVolume).nodePool 0) 1000 100 : ℤ), Bytes.blit Bytes.zeros 0
        (fun j => ((fat32View hugeFs).view (stateWith hugeFs hugeVolume)).data
          (fileAddr hugeFs (List.range' 3 4194304) (1000 + j)))
        (inFile ((stateWith hugeFs hugeVolume).nodePool 0) 1000 100)))
        (stateWith hugeFs hugeVolume) :=
  (read_exact_iff_below_lastSector hugeFs_layout hugeState_sound hugeState_file
    hugeState_size 1000 100 (by decide) Bytes.zeros).mpr
    (.inr (by rw [inFile_huge]; decide))

/-- The last 511 bytes of the file cannot be read. -/
theorem not_read_exact_lastSector : ¬ ∀ (fs : Fat32Fs) (s : Fat32State) (node offset size : ℕ)
    (l : List ℕ) (out : Bytes), Layout fs → Sound fs s →
    OpenFile fs ((fat32View fs).view s) node l →
    (s.nodePool node).size < 2 ^ 32 → size < 2 ^ 31 →
    wp (fat32Read node offset size out) (fun r _ => r =
      ((inFile (s.nodePool node) offset size : ℤ), Bytes.blit out 0
        (fun j => ((fat32View fs).view s).data (fileAddr fs l (offset + j)))
        (inFile (s.nodePool node) offset size))) s := by
  intro hclaim
  have hread := hclaim hugeFs (stateWith hugeFs hugeVolume) 0 (2 ^ 32 - 512) 511
    (List.range' 3 4194304) Bytes.zeros hugeFs_layout hugeState_sound
    hugeState_file hugeState_size (by decide)
  rw [wp_read_iff hugeFs_layout hugeState_sound hugeState_file
    hugeState_size (by decide), inFile_huge] at hread
  exact absurd hread (by decide)

lemma hugeState_writable :
    WritableFile hugeFs ((fat32View hugeFs).view (stateWith hugeFs hugeVolume)) 0
    (List.range' 3 4194304) :=
  ⟨hugeState_file, ⟨rfl, le_rfl, by decide⟩, hugeState_size⟩

theorem sizes_right_huge :
    SizesRight hugeFs 0 [⟨4096, 100, Bytes.zeros⟩, ⟨2 ^ 32 - 600, 1000, Bytes.zeros⟩]
    (stateWith hugeFs hugeVolume) := by
  refine sizes_right hugeFs_layout ⟨4194304, rfl⟩ hugeState_sound hugeState_writable
    _ fun c hc => ?_
  rcases List.mem_cons.mp hc with rfl | hc
  · exact ⟨by decide, .inr (by decide)⟩
  · rw [List.mem_singleton.mp hc]
    exact ⟨by decide, .inr (by decide)⟩

/-- The last sector before 4 GiB is hidden from a write at offset 2. -/
lemma hidden_huge {pos : ℕ} (hdvd : 1024 ∣ pos) (hpos : pos < 2 ^ 32 - 512) : Hidden 2 pos 2 := by
  obtain ⟨k, rfl⟩ := hdvd
  intro s hs hlo
  unfold u32
  omega

lemma visible_huge : visible 2 (2 ^ 32 - 1) = 2 ^ 32 - 514 := by
  rw [visible]
  omega

/-- The two sectors at `2 ^ 32` are taken for the first ones of the file, so that the bytes left
over are written there. -/
lemma wp_writeRound_huge {v : Volume} {w : FileLoop} {l : List ℕ} (input : Bytes)
    (hpos : w.pos = 2 ^ 32) (hdone : w.done = 2 ^ 32 - 514) (hne : l ≠ [])
    (hchain : ChainAt hugeFs v.fat w.cluster l) :
    (fat32View hugeFs).wp (writeRound hugeFs 2 (2 ^ 32 - 1) input w) (fun r v' =>
      (∃ w', r = .inl w' ∧ w'.done = 2 ^ 32 - 1) ∧ ∃ d, v' = { v with data := d }) v := by
  obtain ⟨c, l', rfl⟩ := List.exists_cons_of_ne_nil hne
  obtain ⟨rfl, hrange, -⟩ := hchain
  have hlt : w.cluster < fat32Eoc := hrange.lt.trans_le (by decide)
  have hwin : sectorWindow hugeFs.sectorsPerCluster w.pos 2 (2 ^ 32 - 1)
    hugeFs.sectorsPerCluster none =
      some (0, 1) := by
    rw [hpos]
    decide
  have hcopy : ∀ buf, (copyIn 0 w.pos 2 (2 ^ 32 - 1) input (1 - 0 + 1) 0 (buf, w.done)).2 =
      2 ^ 32 - 1 := by
    intro buf
    rw [hpos, hdone]
    simp only [copyIn]
    decide
  rw [writeRound, if_pos ⟨by omega, hlt⟩, hwin]
  simp only [clusterToLba_eq hugeFs_layout hrange, Nat.add_assoc]
  refine View.wp_bind (wp_readData _ 2 (by decide)) ?_
  rintro _ _ ⟨rfl, rfl⟩
  refine View.wp_bind (wp_writeData hugeFs_layout _ 2 (by decide) _) ?_
  rintro _ _ ⟨rfl, rfl⟩
  refine View.wp_ite (fun _ => ?_) fun h => absurd rfl h
  refine View.wp_bind (wp_next hugeFs_layout hrange.lt) ?_
  rintro _ _ ⟨rfl, rfl⟩
  refine View.wp_pure ⟨⟨_, rfl, ?_⟩, _, rfl⟩
  rw [hcopy]

/-- A write of `2 ^ 32 - 1` bytes at offset 2 counts them all. -/
lemma wp_writeLoop_huge {v : Volume} {l : List ℕ} {cluster k : ℕ} (input : Bytes)
    (hlen : 4194305 ≤ l.length) (hw : LoopAt hugeFs v.fat l 2 (2 ^ 32 - 514)
      ⟨cluster, 0, 0, Bytes.zeros⟩ k) :
    (fat32View hugeFs).wp (writeLoop hugeFs 2 (2 ^ 32 - 1) input ⟨cluster, 0, 0, Bytes.zeros⟩)
      (fun r v' => r = 2 ^ 32 - 1 ∧ ∃ d, v' = { v with data := d }) v := by
  have hcs : clusterSize hugeFs = 1024 := rfl
  rw [writeLoop_eq]
  -- the loop is in front of the last sector, or at `2 ^ 32`, or done
  refine View.wp_iter (fun w v' => ((∃ k, LoopAt hugeFs v.fat l 2 (2 ^ 32 - 514) w k ∧
        w.done < 2 ^ 32 - 514) ∨
      (w.pos = 2 ^ 32 ∧ w.done = 2 ^ 32 - 514 ∧ ChainAt hugeFs v.fat w.cluster (l.drop 4194304)) ∨
      w.done = 2 ^ 32 - 1) ∧ ∃ d, v' = { v with data := d })
    (fun w _ => 2 ^ 32 - 1 - w.done) ?_
    ⟨.inl ⟨k, hw, (by decide : 0 < 2 ^ 32 - 514)⟩, v.data, rfl⟩
    (by decide : 2 ^ 32 - 1 - 0 < 2 ^ 32)
  rintro w _ ⟨⟨k, hw', hlt⟩ | ⟨hpos, hdone, hchain⟩ | hdone, d, rfl⟩
  · have hmax := hw'.position hlt
    have hdvd : 1024 ∣ w.pos := ⟨k, by rw [hw'.pos, hcs, Nat.mul_comm]⟩
    have hround := @wp_writeRound hugeFs { v with data := d } hugeFs_layout l 2
      (2 ^ 32 - 1) k w input
    rw [visible_huge] at hround
    refine View.wp_mono (hround (by rw [hcs]; omega) hw' hlt
      (.inr ⟨(by decide : 512 ∣ 1024).trans hdvd, hidden_huge hdvd (by omega)⟩)) ?_
    rintro _ _ ⟨w', start, rfl, hnext, -, rfl⟩
    obtain ⟨hloop, hpos', hdone', hgot⟩ := hnext
    rw [visible_huge] at hloop hdone'
    rw [hcs] at hpos' hdone'
    refine ⟨⟨?_, _, rfl⟩, by omega⟩
    rcases Nat.lt_or_ge w'.done (2 ^ 32 - 514) with hlt' | hge
    · exact .inl ⟨k + 1, hloop, hlt'⟩
    · have hend : w'.pos = 2 ^ 32 := by
        obtain ⟨m, hm⟩ := hdvd
        omega
      have hk : k + 1 = 4194304 := by
        have := hloop.pos
        rw [hcs] at this
        omega
      have hdone'' : w'.done = 2 ^ 32 - 514 := Nat.le_antisymm hloop.done hge
      have hchain := hloop.chain
      rw [hk] at hchain
      exact .inr (.inl ⟨hend, hdone'', hchain⟩)
  · refine View.wp_mono (wp_writeRound_huge input hpos hdone ?_ hchain) ?_
    · rw [Ne, List.drop_eq_nil_iff]
      omega
    · rintro _ _ ⟨⟨w', rfl, hdone'⟩, d', rfl⟩
      have hless : 2 ^ 32 - 1 - w'.done < 2 ^ 32 - 1 - w.done := by
        rw [hdone', hdone]
        decide
      exact ⟨⟨.inr (.inr hdone'), _, rfl⟩, hless⟩
  · exact View.wp_ite (fun hc => absurd hc.1 (by omega)) fun _ => View.wp_pure ⟨hdone, d, rfl⟩

/-- The file after that write ends past 4 GiB. -/
lemma wp_write_huge (input : Bytes) :
    (fat32View hugeFs).wp (fat32Write 0 2 (2 ^ 32 - 1) input)
      (fun _ v' => 2 ^ 32 ≤ (v'.nodes 0).size) hugeVolume := by
  have hcs : clusterSize hugeFs = 1024 := rfl
  have hfree : hugeVolume.fat 4194307 = 0 := by decide
  refine wp_write_grown hugeFs_layout rfl rfl hugeVolume_file.chain (by decide)
    (by decide) (by decide)
    (fun hfull => absurd hfree (hfull 4194307 ⟨by decide, by decide⟩)) fun v' new first hgrown => ?_
  -- the file is given another cluster, since one is free
  have hlen : 4194305 ≤ (List.range' 3 4194304 ++ new).length := by
    rw [List.length_append, List.length_range']
    by_contra hlt
    obtain rfl : new = [] := by
      rw [← List.length_eq_zero_iff]
      omega
    have hfull : Full hugeFs v' := by
      refine hgrown.full ?_
      rw [List.append_nil, List.length_range', hcs]
      decide
    rw [hgrown.same rfl] at hfull
    exact hfull 4194307 ⟨by decide, by decide⟩ hfree
  have hend : writableEnd hugeFs 2 (2 ^ 32 - 1) (List.range' 3 4194304 ++ new).length - 2 =
      2 ^ 32 - 1 := by
    rw [writableEnd, hcs]
    omega
  have hnode : v'.nodes 0 = { hugeVolume.nodes 0 with inode := first } := by
    simp only [hgrown.nodes, Function.update_self]
  rw [hend, if_neg (by decide)]
  refine View.wp_bind (wp_skipClusters hugeFs_layout hgrown.chain) ?_
  rintro ⟨cluster, pos⟩ v ⟨rfl, k, hk, hpos, hdrop, hle, hin⟩
  simp only at hpos hdrop hle hin
  obtain rfl : k = 0 := by
    rw [hcs] at hpos
    omega
  obtain rfl : pos = 0 := by omega
  have hstart : LoopAt hugeFs v.fat (List.range' 3 4194304 ++ new) 2 (2 ^ 32 - 514)
      ⟨cluster, 0, 0, Bytes.zeros⟩ 0 :=
    LoopAt.start (by rw [hcs]; omega) hpos hdrop (Nat.zero_le _) hk hin
  refine View.wp_bind (wp_writeLoop_huge input hlen hstart) ?_
  rintro _ _ ⟨rfl, d, rfl⟩
  refine View.wp_ite (fun h0 => absurd h0 (by decide)) fun _ => ?_
  refine View.wp_bind (wp_modifyNode 0 _) ?_
  rintro _ _ rfl
  refine View.wp_bind (wp_flushDirent hugeFs_layout ?_ ?_) ?_
  · simp only [Function.update_self, hnode]
    rfl
  · simp only [Function.update_self, hnode]
    exact ⟨rfl, le_rfl, (by decide : 0 + 32 ≤ 512)⟩
  · rintro _ _ ⟨-, rfl⟩
    refine View.wp_pure ?_
    simp only [Function.update_self]
    exact le_max_of_le_right (by decide)

/-- A write of `2 ^ 32 - 1` bytes at offset 2 makes the size in the node wrap in the directory
entry. -/
theorem not_sizes_right_huge : ¬ ∀ (fs : Fat32Fs) (s : Fat32State) (node : ℕ) (l : List ℕ)
    (cs : List WriteCall), Layout fs → clusterSize fs ∣ 2 ^ 32 → Sound fs s →
    WritableFile fs ((fat32View fs).view s) node l →
    deSize ((fat32View fs).view s).data (slotAddr fs (s.nodePool node)) = (s.nodePool node).size →
    (∀ c ∈ cs, c.size < 2 ^ 32) → SizesRight fs node cs s := by
  intro hclaim
  obtain ⟨hfirst, hdir, hcluster, hsize⟩ := newEntry_parts
    [70, 32, 32, 32, 32, 32, 32, 32, 32, 32, 32] (show 3 < 2 ^ 32 by decide)
    (show 2 ^ 32 - 1 < 2 ^ 32 by decide)
  have hrun := hclaim hugeFs (stateWith hugeFs hugeVolume) 0 _ [⟨2, 2 ^ 32 - 1, Bytes.zeros⟩]
    hugeFs_layout ⟨4194304, rfl⟩ hugeState_sound hugeState_writable
    (by rw [hugeState_view]; exact hsize) (fun c hc => by rw [List.mem_singleton.mp hc]; decide)
  obtain ⟨n, s, heq, hright, -⟩ := hrun
  obtain ⟨n', s', heq', -, hbad⟩ := wp_write_huge Bytes.zeros _ hugeState_sound hugeState_view
  obtain rfl : s = s' := congrArg Prod.snd (Option.some.inj (heq.symm.trans heq'))
  exact absurd hright.bound (Nat.not_lt.mpr hbad)

end Fat32

end CoolFrost

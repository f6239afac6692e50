import CoolFrost.Fs.Recycling

/-!
# Runs that fit into the pools

What `vfs_open`, `vfs_stat` and the mount functions need to succeed is that the file, the path or
the volume is there and, since nothing is ever given back to the pools of nodes and volumes, that
there is room left in them.  Along a run in which there always is, every such call succeeds.
-/

namespace CoolFrost

namespace Vfs

open Program

variable {F : RoFormats} {k : Kernel}

/-! ## Paths -/

/-- There is a file or a directory at the path. -/
def PathExists (F : RoFormats) (k : Kernel) (path : List UInt8) : Prop :=
  ∃ i relpath root, locate k path = some (i, relpath) ∧ (k.mounts i).root = some root ∧
    wp (walkWith (finddirEndless F) (some root) relpath) (fun r _ => r ≠ none) k

/-- The pool of the driver has a node left for every component of the path. -/
def RoomForPath (k : Kernel) (path : List UInt8) : Prop :=
  ∀ i relpath root, locate k path = some (i, relpath) → (k.mounts i).root = some root →
    nodesUsed k root.driver + (components [] relpath).length ≤ maxNodes root.driver

/-- With room, a path that exists is found. -/
lemma walkPath_of_room {path : List UInt8} (hpath : PathExists F k path)
    (hroom : RoomForPath k path) :
    ∃ i relpath node k', locate k path = some (i, relpath) ∧
      walkPath F (k.mounts i).root relpath k = some (some node, k') := by
  obtain ⟨i, relpath, root, hloc, hroot, r, k', hwalk, hr⟩ := hpath
  obtain ⟨node, rfl⟩ := Option.ne_none_iff_exists'.mp hr
  refine ⟨i, relpath, node, k', hloc, ?_⟩
  rw [walkPath_eq, hroot]
  exact (lookup_cases _ hwalk).1 (hroom i relpath root hloc hroot)

/-- The current task has a descriptor left. -/
def DescriptorLeft (k : Kernel) : Prop :=
  ∃ f < maxFd, (fdTable k k.sched.curTask f).active = false

lemma vfsOpen_of_room {path : List UInt8} (hpath : PathExists F k path) (hroom : RoomForPath k path)
    (hfd : DescriptorLeft k) (flags : ℕ) : wp (vfsOpen F path flags) (fun r _ => 0 ≤ r) k := by
  obtain ⟨i, relpath, node, k', hloc, hwalk⟩ := walkPath_of_room hpath hroom
  have hsched := walkPath_sched _ _ k _ _ hwalk
  simp only [vfsOpen, wp_bind, wp_get, hloc]
  refine wp_of_eq hwalk ?_
  obtain ⟨f, hf, hfree⟩ := hfd
  simp only [openNode, wp_bind, wp_get, setFd]
  cases hfind : (List.range maxFd).find? fun f => !(fdTable k' k'.sched.curTask f).active with
  | none =>
    have hnone := List.find?_eq_none.mp hfind f (List.mem_range.mpr hf)
    rw [fdTable, hsched] at hnone
    rw [fdTable] at hfree
    simp [hfree] at hnone
  | some f' =>
    simp only [wp_bind, wp_modify, wp_pure]
    exact Int.natCast_nonneg f'

lemma vfsStat_of_room {path : List UInt8} (hpath : PathExists F k path)
    (hroom : RoomForPath k path) : wp (vfsStat F path) (fun r _ => r ≠ none) k := by
  obtain ⟨i, relpath, node, k', hloc, hwalk⟩ := walkPath_of_room hpath hroom
  simp only [vfsStat, resolvePath, wp_bind, wp_get, wp_pure, hloc]
  exact wp_of_eq hwalk (by simp)

/-- Without room, it is not. -/
lemma vfsStat_of_full {path relpath : List UInt8} {i : ℕ} {root : VNode}
    (hpath : PathExists F k path)
    (hloc : locate k path = some (i, relpath)) (hroot : (k.mounts i).root = some root)
    (hne : components [] relpath ≠ [])
    (hfull : maxNodes root.driver < nodesUsed k root.driver + (components [] relpath).length) :
    wp (vfsStat F path) (fun r _ => r = none) k := by
  obtain ⟨i', relpath', root', hloc', hroot', r, k', hwalk, hr⟩ := hpath
  obtain ⟨rfl, rfl⟩ : i = i' ∧ relpath = relpath' := by
    rw [hloc] at hloc'
    simpa using hloc'
  obtain rfl : root = root' := Option.some.inj (hroot.symm.trans hroot')
  obtain ⟨node, rfl⟩ := Option.ne_none_iff_exists'.mp hr
  obtain ⟨r', k'', heq, rfl⟩ := (lookup_cases _ hwalk).2 hne hfull
  simp only [vfsStat, resolvePath, wp_bind, wp_get, wp_pure, hloc]
  refine ⟨none, k'', ?_, rfl⟩
  rw [walkPath_eq, hroot]
  exact heq

/-! ## Volumes -/

/-- A volume of the given kind is at a place of a drive: its mount function accepts what is
there. -/
def VolumeAt (F : RoFormats) (d : BlkDev) (dev : Drive) (lba : ℕ) : FsType → Prop
  | .none => False
  | .fat32 => wp (blkRead dev lba 1) (fun r _ => ∃ boot, r = some boot ∧ Bytes.le16 boot 11 = 512 ∧
      Bytes.le16 boot 17 = 0 ∧ Bytes.le16 boot 22 = 0 ∧ (boot 13).toNat ≠ 0 ∧
      (boot 13).toNat ≤ fat32MaxClusterSectors) d
  | .ext2 => wp (blkRead dev (lba + 2) 2) (fun r _ => ∃ sb, r = some sb ∧
      Bytes.le16 sb 56 = 0xEF53 ∧
      ¬ (1 ≤ Bytes.le32 sb 76 ∧
        Bytes.le32 sb 96 &&& (0xFFFFFFFF ^^^ Ext2.supportedIncompat) ≠ 0)) d
  | .ntfs => wp (blkRead dev lba 1) (fun r d' => ∃ boot, r = some boot ∧ F.ntfs.check boot = none ∧
      wp (F.ntfs.ready ⟨dev, lba, boot⟩) (fun ok _ => ok = true) d') d
  | .xfs => wp (blkRead dev lba 1) (fun r d' => ∃ boot, r = some boot ∧ F.xfs.check boot = none ∧
      wp (F.xfs.ready ⟨dev, lba, boot⟩) (fun ok _ => ok = true) d') d

/-- The number of volumes that a driver has taken from its pool. -/
def volumesUsed (k : Kernel) : FsType → ℕ
  | .none => 0
  | .fat32 => k.fat32.fsPoolUsed
  | .ext2 => k.ext2.fsPoolUsed
  | .ntfs => k.ntfs.fsPoolUsed
  | .xfs => k.xfs.fsPoolUsed

/-- The size of a driver's pool of volumes. -/
def maxVolumes : FsType → ℕ
  | .none => 0
  | .fat32 => Fat32.maxFat32Fs
  | .ext2 => Ext2.maxExt2Fs
  | .ntfs => RoFs.maxRoFs
  | .xfs => RoFs.maxRoFs

/-- The driver has a volume and a node left. -/
def RoomForVolume (k : Kernel) (t : FsType) : Prop :=
  volumesUsed k t < maxVolumes t ∧ nodesUsed k t < maxNodes t

lemma wp_finishMount (slot : ℕ) (t : FsType) (root : VNode) (k : Kernel) :
    wp (finishMount slot t (.ok root)) (fun r _ => r = 0) k := by
  simp only [finishMount, setMount, wp_bind, wp_modify, wp_pure]

lemma mountFat32_of_room {dev : Drive} {lba : ℕ} (slot : ℕ) (hvol : VolumeAt F k.blk dev lba .fat32)
    (hroom : RoomForVolume k .fat32) : wp (mountFat32 dev lba slot) (fun r _ => r = 0) k := by
  obtain ⟨hfs, hnode⟩ := hroom
  have hfs' := Nat.not_le.mpr hfs
  have hnode' := Nat.not_le.mpr hnode
  simp only [volumesUsed, maxVolumes, nodesUsed, maxNodes] at hfs' hnode'
  simp only [mountFat32, wp_bind, inFat32, wp_zoom, Fat32.fat32Mount, Fat32.io]
  refine wp_mono hvol ?_
  rintro r d ⟨boot, rfl, h11, h17, h22, h13, hmax⟩
  simp only [wp_ite, h11, h17, h22, h13, Nat.not_lt.mpr hmax, ne_eq, not_true_eq_false, if_false,
    wp_bind, wp_get, hfs', Fat32.allocFs, wp_modify, Fat32.allocNode, hnode', wp_pure]
  exact wp_finishMount _ _ _ _

lemma mountExt2_of_room {dev : Drive} {lba : ℕ} (slot : ℕ) (hvol : VolumeAt F k.blk dev lba .ext2)
    (hroom : RoomForVolume k .ext2) : wp (mountExt2 dev lba slot) (fun r _ => r = 0) k := by
  obtain ⟨hfs, hnode⟩ := hroom
  have hfs' := Nat.not_le.mpr hfs
  have hnode' := Nat.not_le.mpr hnode
  simp only [volumesUsed, maxVolumes, nodesUsed, maxNodes] at hfs' hnode'
  simp only [mountExt2, wp_bind, inExt2, wp_zoom, Ext2.ext2Mount, Ext2.io]
  refine wp_mono hvol ?_
  rintro r d ⟨sb, rfl, hmagic, hincompat⟩
  simp only [wp_ite, hmagic, hincompat, ne_eq, not_true_eq_false, if_false, wp_bind, wp_get, hfs',
    Ext2.allocFs, wp_modify, Ext2.allocNode, hnode', wp_pure]
  exact wp_finishMount _ _ _ _

/-- The common part of the read-only drivers. -/
lemma roMount_of_room {R : RoFormat} {s : RoState} {dev : Drive} {lba : ℕ}
    (hvol : wp (blkRead dev lba 1) (fun r d' => ∃ boot, r = some boot ∧ R.check boot = none ∧
      wp (R.ready ⟨dev, lba, boot⟩) (fun ok _ => ok = true) d') s.blk)
    (hfs : s.fsPoolUsed < RoFs.maxRoFs) (hnode : s.nodePoolUsed < RoFs.maxRoNodes) :
    wp (RoFs.mount R dev lba) (fun r _ => ∃ root, r = .ok root) s := by
  simp only [RoFs.mount, wp_bind, RoFs.io, wp_zoom]
  refine wp_mono hvol ?_
  rintro r d ⟨boot, rfl, hcheck, hready⟩
  simp only [hcheck, wp_bind, wp_get, Nat.not_le.mpr hfs, if_false, wp_modify, wp_zoom]
  refine wp_mono hready ?_
  rintro ok d' rfl
  simp only [if_true, wp_bind, RoFs.allocNode, wp_get, Nat.not_le.mpr hnode, if_false, wp_modify,
    wp_pure]
  exact ⟨_, rfl⟩

lemma mountNtfs_of_room {dev : Drive} {lba : ℕ} (slot : ℕ) (hvol : VolumeAt F k.blk dev lba .ntfs)
    (hroom : RoomForVolume k .ntfs) : wp (mountNtfs F dev lba slot) (fun r _ => r = 0) k := by
  simp only [mountNtfs, wp_bind, inNtfs, wp_zoom]
  have hmount := @roMount_of_room F.ntfs { k.ntfs with blk := k.blk } dev lba hvol hroom.1 hroom.2
  refine wp_mono hmount ?_
  rintro r s ⟨root, rfl⟩
  exact wp_finishMount _ _ _ _

lemma mountXfs_of_room {dev : Drive} {lba : ℕ} (slot : ℕ) (hvol : VolumeAt F k.blk dev lba .xfs)
    (hroom : RoomForVolume k .xfs) : wp (mountXfs F dev lba slot) (fun r _ => r = 0) k := by
  simp only [mountXfs, wp_bind, inXfs, wp_zoom]
  have hmount := @roMount_of_room F.xfs { k.xfs with blk := k.blk } dev lba hvol hroom.1 hroom.2
  refine wp_mono hmount ?_
  rintro r s ⟨root, rfl⟩
  exact wp_finishMount _ _ _ _

/-- Partition `partition` of the partition table of an ATA drive holds a volume of the given
kind. -/
def PartitionVolume (F : RoFormats) (d : BlkDev) (drive : ℕ) (partition : Fin 4)
    (t : FsType) : Prop :=
  wp (blkRead ⟨0, drive⟩ 0 1) (fun r d' => ∃ mbr, r = some mbr ∧ mbr 510 = 0x55 ∧ mbr 511 = 0xAA ∧
    let ptype := mbr (446 + 16 * partition.val + 4)
    let lba := Bytes.le32 mbr (446 + 16 * partition.val + 8)
    match t with
    | .none => False
    | .fat32 => (ptype = 0x0B ∨ ptype = 0x0C) ∧ VolumeAt F d' ⟨0, drive⟩ lba .fat32
    | .ext2 => ptype = 0x83 ∧ VolumeAt F d' ⟨0, drive⟩ lba .ext2
    | .ntfs => ptype = 0x07 ∧ VolumeAt F d' ⟨0, drive⟩ lba .ntfs
    -- the two share a partition type, and ext2 is tried first
    | .xfs => ptype = 0x83 ∧ wp (blkRead ⟨0, drive⟩ (lba + 2) 2) (fun r d'' =>
        (∃ sb, r = some sb ∧ Bytes.le16 sb 56 ≠ 0xEF53) ∧ VolumeAt F d'' ⟨0, drive⟩ lba .xfs) d') d

/-- A partition holds a volume that the probes recognise. -/
def ProbedVolume (F : RoFormats) (d : BlkDev) (dev : Drive) (lba : ℕ) (t : FsType) : Prop :=
  wp (blkRead dev lba 1) (fun r d' => ∃ boot, r = some boot ∧
    let isFat32 := Bytes.le16 boot 11 = 512 ∧ Bytes.le16 boot 17 = 0 ∧ Bytes.le16 boot 22 = 0
    let isNtfs := boot 3 = 0x4E ∧ boot 4 = 0x54 ∧ boot 5 = 0x46 ∧ boot 6 = 0x53
    match t with
    | .none => False
    | .fat32 => isFat32 ∧ VolumeAt F d' dev lba .fat32
    | .ext2 => ¬ isFat32 ∧ ¬ isNtfs ∧ wp (blkRead dev (lba + 2) 1) (fun r d'' =>
        (∃ sb, r = some sb ∧ Bytes.le16 sb 56 = 0xEF53) ∧ VolumeAt F d'' dev lba .ext2) d'
    | .ntfs => ¬ isFat32 ∧ isNtfs ∧ VolumeAt F d' dev lba .ntfs
    | .xfs => False) d

lemma vfsMount_of_room {drive : ℕ} {partition : Fin 4} {t : FsType} (path : List UInt8)
    (hvol : PartitionVolume F k.blk drive partition t) (hfree : (freeSlot k).isSome)
    (hroom : RoomForVolume k t) : wp (vfsMount F drive partition path) (fun r _ => r = 0) k := by
  obtain ⟨slot, hslot⟩ := Option.isSome_iff_exists.mp hfree
  simp only [vfsMount, wp_bind, wp_get, hslot, io, wp_zoom]
  refine wp_mono hvol ?_
  rintro r d ⟨mbr, rfl, h510, h511, hkind⟩
  simp only [h510, h511, ne_eq, not_true_eq_false, or_self, if_false]
  cases t with
  | none => exact hkind.elim
  | fat32 =>
    obtain ⟨htype, hvol⟩ := hkind
    have h0 : mbr (446 + 16 * partition.val + 4) ≠ 0 := by
      rcases htype with h | h <;> simp [h]
    simp only [h0, if_false, htype, if_true, setMount, wp_bind, wp_modify]
    exact mountFat32_of_room (F := F) slot hvol hroom
  | ext2 =>
    obtain ⟨htype, hvol⟩ := hkind
    simp only [htype, show (0x83 : UInt8) ≠ 0 by decide, show (0x83 : UInt8) ≠ 0x0B by decide,
      show (0x83 : UInt8) ≠ 0x0C by
        decide, or_self, if_false, if_true, setMount, wp_bind, wp_modify]
    refine wp_mono (mountExt2_of_room (F := F) slot hvol hroom) ?_
    rintro rc k' rfl
    simp only [show ((0 : ℤ) = -2) = False by simp, if_false, wp_pure]
  | ntfs =>
    obtain ⟨htype, hvol⟩ := hkind
    simp only [htype, show (0x07 : UInt8) ≠ 0 by decide, show (0x07 : UInt8) ≠ 0x0B by decide,
      show (0x07 : UInt8) ≠ 0x0C by decide, show (0x07 : UInt8) ≠ 0x83 by decide, or_self, if_false,
      if_true, setMount, wp_bind, wp_modify]
    exact mountNtfs_of_room slot hvol hroom
  | xfs =>
    obtain ⟨htype, hread⟩ := hkind
    simp only [htype, show (0x83 : UInt8) ≠ 0 by decide, show (0x83 : UInt8) ≠ 0x0B by decide,
      show (0x83 : UInt8) ≠ 0x0C by
        decide, or_self, if_false, if_true, setMount, wp_bind, wp_modify,
      mountExt2, inExt2, wp_zoom, Ext2.ext2Mount, Ext2.io]
    refine wp_mono hread ?_
    rintro r d' ⟨⟨sb, rfl, hmagic⟩, hvol⟩
    simp only [wp_ite, if_pos hmagic, wp_pure, Except.map, finishMount, if_true]
    exact mountXfs_of_room slot hvol hroom

lemma mountProbe_of_room {dev : Drive} {lba : ℕ} {t : FsType} (path : List UInt8)
    (hvol : ProbedVolume F k.blk dev lba t) (hfree : (freeSlot k).isSome)
    (hroom : RoomForVolume k t) : wp (mountProbe F dev lba path) (fun r _ => r = 0) k := by
  obtain ⟨slot, hslot⟩ := Option.isSome_iff_exists.mp hfree
  simp only [mountProbe, wp_bind, wp_get, hslot, setMount, wp_modify, io, wp_zoom]
  refine wp_mono hvol ?_
  rintro r d ⟨boot, rfl, hkind⟩
  cases t with
  | none => exact hkind.elim
  | xfs => exact hkind.elim
  | fat32 =>
    obtain ⟨hfat, hvol⟩ := hkind
    rw [wp_ite, if_pos hfat]
    exact mountFat32_of_room (F := F) slot hvol hroom
  | ntfs =>
    obtain ⟨hfat, hntfs, hvol⟩ := hkind
    rw [wp_ite, if_neg hfat, wp_ite, if_pos hntfs]
    exact mountNtfs_of_room slot hvol hroom
  | ext2 =>
    obtain ⟨hfat, hntfs, hread⟩ := hkind
    rw [wp_ite, if_neg hfat, wp_ite, if_neg hntfs, wp_bind, wp_zoom]
    refine wp_mono hread ?_
    rintro r d' ⟨⟨sb, rfl, hmagic⟩, hvol⟩
    simp only [Option.any_some, hmagic, decide_true, if_true]
    exact mountExt2_of_room (F := F) slot hvol hroom

/-! ## Runs -/

/-- What a call needs on the drives and in the tables to have a reason to succeed: an existing path,
a descriptor, a valid volume, a place for a mount. -/
def Due (F : RoFormats) (k : Kernel) : Call → Prop
  | .openFile path _ => PathExists F k path ∧ DescriptorLeft k
  | .stat path => PathExists F k path
  | .mount drive partition _ =>
    (freeSlot k).isSome ∧ ∃ t, PartitionVolume F k.blk drive partition t
  | .mountGpt drive lba _ => (freeSlot k).isSome ∧ ∃ t, ProbedVolume F k.blk ⟨0, drive⟩ lba t
  | .mountNvmeGpt drive lba _ => (freeSlot k).isSome ∧ ∃ t, ProbedVolume F k.blk ⟨1, drive⟩ lba t
  | .mountAhciGpt drive lba _ => (freeSlot k).isSome ∧ ∃ t, ProbedVolume F k.blk ⟨2, drive⟩ lba t
  | .mountVblkGpt drive lba _ => (freeSlot k).isSome ∧ ∃ t, ProbedVolume F k.blk ⟨3, drive⟩ lba t
  | _ => False

/-- The call returns, and not with an error. -/
def Succeeds (F : RoFormats) (k : Kernel) : Call → Prop
  | .openFile path flags => wp (vfsOpen F path flags) (fun r _ => 0 ≤ r) k
  | .stat path => wp (vfsStat F path) (fun r _ => r ≠ none) k
  | .mount drive partition path => wp (vfsMount F drive partition path) (fun r _ => r = 0) k
  | .mountGpt drive lba path => wp (vfsMountGpt F drive lba path) (fun r _ => r = 0) k
  | .mountNvmeGpt drive lba path => wp (vfsMountNvmeGpt F drive lba path) (fun r _ => r = 0) k
  | .mountAhciGpt drive lba path => wp (vfsMountAhciGpt F drive lba path) (fun r _ => r = 0) k
  | .mountVblkGpt drive lba path => wp (vfsMountVblkGpt F drive lba path) (fun r _ => r = 0) k
  | _ => True

/-- The pools have room for the call. -/
def HasRoom (F : RoFormats) (k : Kernel) : Call → Prop
  | .openFile path _ => RoomForPath k path
  | .stat path => RoomForPath k path
  | .mount drive partition _ => ∀ t, PartitionVolume F k.blk drive partition t → RoomForVolume k t
  | .mountGpt drive lba _ => ∀ t, ProbedVolume F k.blk ⟨0, drive⟩ lba t → RoomForVolume k t
  | .mountNvmeGpt drive lba _ => ∀ t, ProbedVolume F k.blk ⟨1, drive⟩ lba t → RoomForVolume k t
  | .mountAhciGpt drive lba _ => ∀ t, ProbedVolume F k.blk ⟨2, drive⟩ lba t → RoomForVolume k t
  | .mountVblkGpt drive lba _ => ∀ t, ProbedVolume F k.blk ⟨3, drive⟩ lba t → RoomForVolume k t
  | _ => True

/-- A call that has a reason to succeed does. -/
def Served (F : RoFormats) (k : Kernel) (call : Call) : Prop :=
  Due F k call → Succeeds F k call

/-- `P` holds of every call of a run and the state in which it is made. -/
def AlongRun (F : RoFormats) (P : Kernel → Call → Prop) : List Call → Kernel → Prop
  | [], _ => True
  | call :: calls, k => P k call ∧ wlp (call.exec F) (fun _ k' => AlongRun F P calls k') k

/-- A call that the pools have room for. -/
lemma served_of_hasRoom {call : Call} (hroom : HasRoom F k call) : Served F k call := by
  intro hdue
  cases call with
  | openFile path flags => exact vfsOpen_of_room hdue.1 hroom hdue.2 flags
  | stat path => exact vfsStat_of_room hdue hroom
  | mount drive partition path =>
    obtain ⟨hfree, t, hvol⟩ := hdue
    exact vfsMount_of_room path hvol hfree (hroom t hvol)
  | mountGpt drive lba path =>
    obtain ⟨hfree, t, hvol⟩ := hdue
    exact mountProbe_of_room path hvol hfree (hroom t hvol)
  | mountNvmeGpt drive lba path =>
    obtain ⟨hfree, t, hvol⟩ := hdue
    exact mountProbe_of_room path hvol hfree (hroom t hvol)
  | mountAhciGpt drive lba path =>
    obtain ⟨hfree, t, hvol⟩ := hdue
    exact mountProbe_of_room path hvol hfree (hroom t hvol)
  | mountVblkGpt drive lba path =>
    obtain ⟨hfree, t, hvol⟩ := hdue
    exact mountProbe_of_room path hvol hfree (hroom t hvol)
  | _ => trivial

/-- In a run that always finds room in the pools, every call that has a reason to succeed does. -/
theorem served_of_room {calls : List Call} (hrun : AlongRun F (HasRoom F) calls k) :
    AlongRun F (Served F) calls k := by
  induction calls generalizing k with
  | nil => trivial
  | cons call calls ih =>
    obtain ⟨hroom, hrest⟩ := hrun
    exact ⟨served_of_hasRoom hroom, wlp_mono hrest fun _ _ h => ih h⟩

/-- What holds of every call of a run in the state that the calls before it leave. -/
lemma alongRun_iff {P : Kernel → Call → Prop} {calls : List Call} :
    AlongRun F P calls k ↔ ∀ before call after k', calls = before ++ call :: after →
      runCalls F before k = some (PUnit.unit, k') → P k' call := by
  constructor
  · rintro h before call after k' rfl hrun
    induction before generalizing k with
    | nil =>
      cases hrun
      exact h.1
    | cons first before ih =>
      obtain ⟨u, k₁, hfirst, hrest⟩ := bind_eq_some.mp hrun
      exact ih (h.2 u k₁ hfirst) hrest
  · intro h
    induction calls generalizing k with
    | nil => trivial
    | cons call calls ih =>
      refine ⟨h [] call calls k rfl rfl, fun u k₁ hfirst => ih fun before c after k' heq hrun => ?_⟩
      exact h (call :: before) c after k' (by rw [heq]; rfl)
        (bind_eq_some.mpr ⟨u, k₁, hfirst, hrun⟩)

lemma runCalls_concat {calls : List Call} {call : Call} {k' k'' : Kernel}
    (h : runCalls F calls k = some (PUnit.unit, k'))
    (h' : call.exec F k' = some (PUnit.unit, k'')) :
    runCalls F (calls ++ [call]) k = some (PUnit.unit, k'') := by
  induction calls generalizing k with
  | nil =>
    cases h
    exact bind_eq_some.mpr ⟨_, _, h', rfl⟩
  | cons first calls ih =>
    obtain ⟨u, k₁, hfirst, hcalls⟩ := bind_eq_some.mp h
    exact bind_eq_some.mpr ⟨u, k₁, hfirst, ih hcalls⟩

/-- Mount a volume, create and open a file, ask for its data and open it once more. -/
def openTwice : List Call := mountAndOpen ++ [.stat [47, 97, 47, 66], .openFile [47, 97, 47, 66] 0]

/-- The path `/a/B` is on a FAT32 volume, and the pool has nodes left. -/
def roomForB (k : Kernel) : Bool :=
  decide (locate k [47, 97, 47, 66] = some (0, [66]) ∧ (k.mounts 0).root = some (.fat32 0) ∧
    nodesUsed k .fat32 < maxNodes .fat32)

lemma roomForPath_of_roomForB (h : roomForB k = true) : RoomForPath k [47, 97, 47, 66] := by
  obtain ⟨hloc, hroot, hused⟩ := of_decide_eq_true h
  rintro i relpath root hloc' hroot'
  obtain ⟨rfl, rfl⟩ : 0 = i ∧ [66] = relpath := by simpa [hloc] using hloc'
  obtain rfl : VNode.fat32 0 = root := by simpa [hroot] using hroot'
  exact hused

set_option maxRecDepth 100000 in
/-- The created file is there, and is found and opened once more. -/
theorem served_of_room_openTwice :
    AlongRun .drivers (Served .drivers) openTwice
      (bootKernel (Fat32.sampleDisk 2 12)) ∧
    ∃ k, runCalls .drivers mountAndOpen (bootKernel (Fat32.sampleDisk 2 12)) =
        some (PUnit.unit, k) ∧
      Due .drivers k (.stat [47, 97, 47, 66]) ∧
      Succeeds .drivers k (.stat [47, 97, 47, 66]) := by
  have hrooms : ∀ n ∈ [1, 2, 3], (runCalls .drivers (openTwice.take n)
      (bootKernel (Fat32.sampleDisk 2 12))).any (fun r => roomForB r.2) = true := by decide +kernel
  have hroom : ∀ n ∈ [1, 2, 3], ∀ k, runCalls .drivers (openTwice.take n)
      (bootKernel (Fat32.sampleDisk 2 12)) = some (PUnit.unit, k) →
      RoomForPath k [47, 97, 47, 66] := by
    intro n hn k hrun
    have hany := hrooms n hn
    rw [hrun] at hany
    exact roomForPath_of_roomForB hany
  have hserved : AlongRun .drivers (Served .drivers) openTwice
      (bootKernel (Fat32.sampleDisk 2 12)) := by
    refine served_of_room (alongRun_iff.mpr fun before call after k hcalls hrun => ?_)
    have htake : openTwice.take before.length = before := by
      rw [hcalls, List.take_left]
    have hget : openTwice[before.length]? = some call := by
      rw [hcalls, List.getElem?_append_right le_rfl, Nat.sub_self]
      rfl
    have hlen : before.length < 4 := (List.getElem?_eq_some_iff.mp hget).1
    rw [← htake] at hrun
    generalize before.length = n at hget hlen hrun
    interval_cases n
    · obtain rfl := Option.some.inj hget
      intro t hvol
      obtain rfl : k = bootKernel (Fat32.sampleDisk 2 12) :=
        (Prod.mk.inj (Option.some.inj hrun)).2.symm
      cases t with
      | none =>
        obtain ⟨r, d, -, boot, -, hfalse⟩ := hvol
        exact hfalse.elim
      | _ => exact ⟨by decide, by decide⟩
    all_goals
      obtain rfl := Option.some.inj hget
      exact hroom _ (by decide) k hrun
  obtain ⟨k, hrun, hk⟩ := exists_of_any (m := runCalls .drivers mountAndOpen)
    (s := bootKernel (Fat32.sampleDisk 2 12)) (p := fun k => roomForB k &&
      (walkWith (finddirEndless .drivers) (some (.fat32 0)) [66] k).any
        fun r => r.1.isSome)
    (by decide +kernel)
  obtain ⟨hB, hwalk⟩ := Bool.and_eq_true_iff.mp hk
  obtain ⟨hloc, hroot, -⟩ := of_decide_eq_true hB
  obtain ⟨⟨r, k'⟩, hwalk, hr⟩ := (Option.any_eq_true _ _).mp hwalk
  have hdue : Due .drivers k (.stat [47, 97, 47, 66]) :=
    ⟨0, [66], .fat32 0, hloc, hroot, r, k', hwalk, Option.isSome_iff_ne_none.mp hr⟩
  have hcalls : openTwice = mountAndOpen ++ Call.stat [47, 97, 47, 66] ::
    [.openFile [47, 97, 47, 66] 0] := rfl
  exact ⟨hserved, k, hrun, hdue, alongRun_iff.mp hserved _ _ _ k hcalls hrun hdue⟩

/-- Mount a volume at `/a` and unmount it, four times over. -/
def fourMounts : List Call :=
  (List.replicate 4 [.mountVblkGpt 0 0 [47, 97], .umount [47, 97]]).flatten

/-- The fifth time, the boot sector is still readable and there is a free place for the mount, but
the mount fails and changes no entry to active. -/
def fifthMountFails (k : Kernel) : Bool :=
  let boot := Bytes.clip (1 % 256 * 512) (Bytes.shift (k.blk.disk ⟨3, 0⟩) (0 * 512))
  !k.blk.fails k.blk.calls && !k.blk.fails (k.blk.calls + 1) &&
  decide (Bytes.le16 boot 11 = 512 ∧ Bytes.le16 boot 17 = 0 ∧ Bytes.le16 boot 22 = 0 ∧
    (boot 13).toNat ≠ 0 ∧ (boot 13).toNat ≤ fat32MaxClusterSectors) && (freeSlot k).isSome &&
  (vfsMountVblkGpt .drivers 0 0 [47, 97] k).any fun r =>
    decide (r.1 ≠ 0 ∧ ∀ i < maxMounts, (r.2.mounts i).active = false)

set_option maxRecDepth 100000 in
/-- After that no mount is active and no file is open, but the same volume is not mounted again. -/
theorem not_served_fifth_mount : ¬ ∀ (F : RoFormats) (k₀ k : Kernel) (calls : List Call), Boot k₀ →
    runCalls F calls k₀ = some (PUnit.unit, k) →
    (∀ i < maxMounts, (k.mounts i).active = false) →
    (∀ t f, (fdTable k t f).active = false) → AlongRun F (Served F) calls k₀ := by
  intro hclaim
  obtain ⟨k, hrun, htest⟩ := exists_of_any (m := runCalls .drivers fourMounts)
    (s := bootKernel (Fat32.sampleDisk 2 12)) (p := fifthMountFails) (by decide +kernel)
  simp only [fifthMountFails, Bool.and_eq_true, Bool.not_eq_true', decide_eq_true_eq] at htest
  obtain ⟨⟨⟨⟨hread, hread'⟩, h11, h17, h22, hspc⟩, hfree⟩, hfails⟩ := htest
  obtain ⟨⟨rc, k'⟩, hmount, htest'⟩ := (Option.any_eq_true _ _).mp hfails
  obtain ⟨hrc, hmounts⟩ := of_decide_eq_true htest'
  have hrun' : runCalls .drivers (fourMounts ++ [.mountVblkGpt 0 0 [47, 97]])
      (bootKernel (Fat32.sampleDisk 2 12)) = some (PUnit.unit, k') :=
    runCalls_concat hrun (bind_eq_some.mpr ⟨rc, k', hmount, rfl⟩)
  have hinv : Inv k' := runCalls_inv _ (boot_bootKernel _).inv _ _ _ hrun'
  have hclosed : ∀ t f, (fdTable k' t f).active = false := by
    intro t f
    rw [← Bool.not_eq_true]
    intro hact
    obtain ⟨-, -, i, -, -, hi, hmounted, -⟩ := hinv.fds t f hact
    rw [hmounts i hi] at hmounted
    cases hmounted
  have hserved := alongRun_iff.mp (hclaim _ _ k' _ (boot_bootKernel _) hrun' hmounts hclosed)
    _ _ [] k rfl hrun
  have hvol : ProbedVolume .drivers k.blk ⟨3, 0⟩ 0 .fat32 := by
    simp only [ProbedVolume, VolumeAt, blkRead, wp_bind, wp_get, wp_modify, hread, hread',
      Bool.false_eq_true, if_false, wp_pure, Option.some.injEq]
    exact ⟨_, rfl, ⟨h11, h17, h22⟩, _, rfl, h11, h17, h22, hspc⟩
  obtain ⟨rc', k'', heq, hok⟩ := hserved ⟨hfree, .fat32, hvol⟩
  obtain ⟨rfl, -⟩ : rc = rc' ∧ k' = k'' := by
    have hsame := hmount.symm.trans heq
    simpa using hsame
  exact hrc hok

end Vfs

end CoolFrost

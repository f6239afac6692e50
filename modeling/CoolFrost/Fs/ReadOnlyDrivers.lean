import CoolFrost.Fs.Ntfs.Dir
import CoolFrost.Fs.Vfs
import CoolFrost.Fs.Xfs.Dir
import CoolFrost.Lib.Frame

/-!
# NTFS and XFS as read-only formats

The functions of `fs/ntfs.c` and `fs/xfs.c` are put together from reads of the drives and changes to
the static buffers, so they never write to a drive.  `Ntfs.format` and `Xfs.format` are the two
formats, each with the contents that the buffers have when a function is called.  With them the
outline of a read-only driver follows the driver: it returns the same, and leaves the same drives,
volumes and nodes (`Follows`).
-/

namespace CoolFrost

open Program

/-- The drives and the record of writes are the same. -/
structure SameDrives (d d' : BlkDev) : Prop where
  disk : d'.disk = d.disk
  log : d'.log = d.log
  fails : d'.fails = d.fails

lemma SameDrives.refl (d : BlkDev) : SameDrives d d := ⟨rfl, rfl, rfl⟩

lemma SameDrives.trans {d d' d'' : BlkDev} (h : SameDrives d d') (h' : SameDrives d' d'') :
    SameDrives d d'' :=
  ⟨h'.disk.trans h.disk, h'.log.trans h.log, h'.fails.trans h.fails⟩

/-- `blk_read` changes the number of calls only. -/
lemma blkRead_sameDrives (dr : Drive) (lba count : ℕ) (d : BlkDev) :
    wlp (blkRead dr lba count) (fun _ d' => SameDrives d d') d := by
  simp only [blkRead, wlp_bind, wlp_get, wlp_modify, wlp_ite, wlp_pure]
  split_ifs <;> exact ⟨rfl, rfl, rfl⟩

section Loads

variable {σ : Type} {A : (α : Type) → Program σ α → Prop}

lemma built_inside (size off len : ℕ) : Built A (inside size off len) :=
  .ite (.ret _) .never

lemma built_load (size : ℕ) (b : Bytes) (off n : ℕ) : Built A (load size b off n) :=
  .bind (built_inside _ _ _) fun _ => .ret _

lemma built_loadBe (size : ℕ) (b : Bytes) (off n : ℕ) : Built A (loadBe size b off n) :=
  .bind (built_inside _ _ _) fun _ => .ret _

end Loads

/-! ## A driver and its outline -/

/-- What the states of the two drivers have in common. -/
structure RoPools (N : Type) where
  blk : BlkDev
  fsPoolUsed : ℕ
  nodePool : ℕ → N
  nodePoolUsed : ℕ

/-- A driver with static buffers: where its state has the drives and the pools, and the node that it
has for a node of the outline. -/
structure RoDriver (σ N : Type) where
  pools : σ → RoPools N
  setBlk : BlkDev → σ → σ
  setBlk_blk (s : σ) : setBlk (pools s).blk s = s
  nodeOf : RoNode → N

namespace RoDriver

variable {σ N α : Type} {D : RoDriver σ N} {s s' : σ} {t : RoState} {m : Program σ α}

/-- The drives and the pools are as before. -/
structure Quiet (D : RoDriver σ N) (s s' : σ) : Prop where
  drives : SameDrives (D.pools s).blk (D.pools s').blk
  fsPoolUsed : (D.pools s').fsPoolUsed = (D.pools s).fsPoolUsed
  nodePool : (D.pools s').nodePool = (D.pools s).nodePool
  nodePoolUsed : (D.pools s').nodePoolUsed = (D.pools s).nodePoolUsed

instance : IsPreorder σ D.Quiet where
  refl _ := ⟨.refl _, rfl, rfl, rfl⟩
  trans _ _ _ h h' := ⟨h.drives.trans h'.drives, h'.fsPoolUsed.trans h.fsPoolUsed,
    h'.nodePool.trans h.nodePool, h'.nodePoolUsed.trans h.nodePoolUsed⟩

/-- A call of a function of the driver, when all but the drives is as in `bufs`. -/
def call (D : RoDriver σ N) (bufs : σ) (m : Program σ α) : Program BlkDev α :=
  zoom (fun d => D.setBlk d bufs) (fun s _ => (D.pools s).blk) m

/-- The outline has the drives, the volumes and the nodes of the driver. -/
structure Outlines (D : RoDriver σ N) (s : σ) (t : RoState) : Prop where
  blk : t.blk = (D.pools s).blk
  fsPoolUsed : t.fsPoolUsed = (D.pools s).fsPoolUsed
  nodePoolUsed : t.nodePoolUsed = (D.pools s).nodePoolUsed
  nodes : ∀ i < (D.pools s).nodePoolUsed, (D.pools s).nodePool i = D.nodeOf (t.nodePool i)

/-- Whatever the driver's function `m` returns, the outline's `m'` returns as well, and the two
still correspond. -/
def Follows (D : RoDriver σ N) (m : Program σ α) (m' : Program RoState α) (s : σ) (t : RoState) :
    Prop :=
  wlp m (fun r s' => wp m' (fun r' t' => r' = r ∧ D.Outlines s' t') t) s

lemma Outlines.quiet (h : D.Outlines s t) (hq : D.Quiet s s') :
    D.Outlines s' { t with blk := (D.pools s').blk } :=
  ⟨rfl, h.fsPoolUsed.trans hq.fsPoolUsed.symm, h.nodePoolUsed.trans hq.nodePoolUsed.symm,
    fun i hi => hq.nodePool ▸ h.nodes i (hq.nodePoolUsed ▸ hi)⟩

/-- Both put a node at the end of their pools. -/
lemma Outlines.push (h : D.Outlines s t) (n : RoNode)
    (hs' : D.pools s' = { D.pools s with
      nodePool := Function.update (D.pools s).nodePool (D.pools s).nodePoolUsed (D.nodeOf n)
      nodePoolUsed := (D.pools s).nodePoolUsed + 1 }) :
    D.Outlines s' { t with
      nodePool := Function.update t.nodePool t.nodePoolUsed n
      nodePoolUsed := t.nodePoolUsed + 1 } := by
  refine ⟨h.blk.trans (by rw [hs']), h.fsPoolUsed.trans (by rw [hs']),
    (congrArg (· + 1) h.nodePoolUsed).trans (by rw [hs']), fun i hi => ?_⟩
  rw [hs'] at hi ⊢
  dsimp only at hi ⊢
  by_cases heq : i = (D.pools s).nodePoolUsed
  · rw [heq, h.nodePoolUsed, Function.update_self, Function.update_self]
  · rw [h.nodePoolUsed, Function.update_of_ne heq, Function.update_of_ne heq]
    exact h.nodes i (Nat.lt_of_le_of_ne (Nat.lt_succ_iff.mp hi) heq)

/-- A function that only reads, called by the driver and by the outline. -/
lemma Outlines.call (h : D.Outlines s t) (hm : Keeps D.Quiet m) :
    D.Follows m (RoFs.io (D.call s m)) s t := by
  intro r s' hrun
  rw [RoFs.io, wp_zoom, RoDriver.call, wp_zoom, h.blk, D.setBlk_blk]
  exact wp_of_eq hrun ⟨rfl, h.quiet (hm s r s' hrun)⟩

/-- A read of a drive. -/
lemma Outlines.read (h : D.Outlines s t) {r : α} {d : BlkDev} {m : Program BlkDev α}
    (hrun : m (D.pools s).blk = some (r, d)) : RoFs.io m t = some (r, { t with blk := d }) := by
  rw [RoFs.io, zoom, h.blk, hrun]

end RoDriver

namespace RoFs

/-! ## How mounting ends -/

variable {F : RoFormat} {dev : Drive} {lba : ℕ} {boot : Bytes} {t t₁ t₂ t₃ : RoState}

/-- The first sector of the partition cannot be read. -/
lemma mount_unread (hread : io (blkRead dev lba 1) t = some (none, t₁)) :
    mount F dev lba t = some (.error (-1), t₁) :=
  bind_eq_some.mpr ⟨none, t₁, hread, rfl⟩

lemma mount_refused {rc : ℤ} (hread : io (blkRead dev lba 1) t = some (some boot, t₁))
    (hcheck : F.check boot = some rc) : mount F dev lba t = some (.error rc, t₁) := by
  refine bind_eq_some.mpr ⟨some boot, t₁, hread, ?_⟩
  dsimp only
  rw [hcheck]
  rfl

section Accepted

variable (hread : io (blkRead dev lba 1) t = some (some boot, t₁)) (hcheck : F.check boot = none)
include hread hcheck

lemma mount_full (hfull : maxRoFs ≤ t₁.fsPoolUsed) :
    mount F dev lba t = some (.error (-4), t₁) := by
  refine bind_eq_some.mpr ⟨some boot, t₁, hread, ?_⟩
  dsimp only
  rw [hcheck]
  refine bind_eq_some.mpr ⟨t₁, t₁, rfl, ?_⟩
  rw [if_pos hfull]
  rfl

variable (hroom : ¬maxRoFs ≤ t₁.fsPoolUsed)
include hroom

/-- The place of the volume stays taken when the volume turns out not to be ready. -/
lemma mount_notReady (hready : io (F.ready ⟨dev, lba, boot⟩)
      { t₁ with fsPoolUsed := t₁.fsPoolUsed + 1 } = some (false, t₂)) :
    mount F dev lba t = some (.error (-5), t₂) := by
  refine bind_eq_some.mpr ⟨some boot, t₁, hread, ?_⟩
  dsimp only
  rw [hcheck]
  refine bind_eq_some.mpr ⟨t₁, t₁, rfl, ?_⟩
  rw [if_neg hroom]
  exact bind_eq_some.mpr ⟨.unit, _, rfl, bind_eq_some.mpr ⟨false, t₂, hready, rfl⟩⟩

/-- The pool of nodes decides about a volume that is ready. -/
lemma mount_root {r : Option ℕ} (hready : io (F.ready ⟨dev, lba, boot⟩)
      { t₁ with fsPoolUsed := t₁.fsPoolUsed + 1 } = some (true, t₂))
    (halloc : allocNode (rootNode F ⟨dev, lba, boot⟩) t₂ = some (r, t₃)) :
    mount F dev lba t = some (r.elim (.error (-6)) .ok, t₃) := by
  refine bind_eq_some.mpr ⟨some boot, t₁, hread, ?_⟩
  dsimp only
  rw [hcheck]
  refine bind_eq_some.mpr ⟨t₁, t₁, rfl, ?_⟩
  rw [if_neg hroom]
  refine bind_eq_some.mpr ⟨.unit, _, rfl, bind_eq_some.mpr ⟨true, t₂, hready, ?_⟩⟩
  refine bind_eq_some.mpr ⟨r, t₃, halloc, ?_⟩
  cases r <;> rfl

end Accepted

end RoFs

namespace Ntfs

/-! ## NTFS -/

/-- The steps of the driver but for those that change a pool. -/
inductive ReadStep : (α : Type) → Program NtfsState α → Prop
  | read (dr : Drive) (lba n : ℕ) : ReadStep _ (io (blkRead dr lba n))
  | mftBuf (g : NtfsState → Bytes) : ReadStep _ (modify fun s => { s with mftBuf := g s })
  | indxBuf (g : NtfsState → Bytes) : ReadStep _ (modify fun s => { s with indxBuf := g s })

section Parsing

variable {σ : Type} {A : (α : Type) → Program σ α → Prop}

lemma built_applyFixup (record : Bytes) (off count size : ℕ) :
    Built A (applyFixup record off count size) := by
  refine .bind (built_load _ _ _ _) fun usn => .ite (.ret _) (.iter (fun p => ?_) _ _)
  obtain ⟨i, record⟩ := p
  exact .ite (.bind (built_load _ _ _ _) fun _ =>
    .ite (.ret _) (.bind (built_load _ _ _ _) fun _ => .ret _)) (.ret _)

lemma built_findAttr (record : Bytes) (type : ℕ) : Built A (findAttr record type) :=
  .bind (built_load _ _ _ _) fun _ => .bind (built_load _ _ _ _) fun _ => .iter (fun _ =>
    .ite (.bind (built_load _ _ _ _) fun _ => .ite (.ret _) (.bind (built_load _ _ _ _) fun _ =>
      .ite (.ret _) (.ite (.ret _) (.ret _)))) (.ret _)) _ _

lemma built_parseRun (b : Bytes) (pos : ℕ) : Built A (parseRun b pos) :=
  .bind (built_load _ _ _ _) fun _ => .ite (.ret _) (.ite (.ret _) (.ite (.ret _)
    (.bind (built_load _ _ _ _) fun _ => .bind (built_load _ _ _ _) fun _ => .ret _)))

lemma built_utf16ToAscii (b : Bytes) (pos n : ℕ) : Built A (utf16ToAscii b pos n) := by
  induction n generalizing pos with
  | zero => exact .ret _
  | succ n ih => exact .bind (built_load _ _ _ _) fun _ => .bind (ih _) fun _ => .ret _

lemma built_fnName (b : Bytes) (fn : ℕ) : Built A (fnName b fn) :=
  .bind (built_load _ _ _ _) fun _ => .bind (built_utf16ToAscii _ _ _) fun _ => .ret _

lemma built_visitEntry (b : Bytes) (ie counter : ℕ) (q : Query) :
    Built A (visitEntry b ie counter q) := by
  refine .bind (built_load _ _ _ _) fun _ => .ite (.ret _) (.bind (built_fnName _ _) fun name => ?_)
  refine .ite (.ret _) ?_
  cases q with
  | name n =>
    dsimp only
    exact .ite (.bind (built_load _ _ _ _) fun _ => .ret _) (.ret _)
  | index i =>
    dsimp only
    exact .ite (.bind (built_load _ _ _ _) fun _ => .ret _) (.ret _)

lemma built_walkIndexEntries (b : Bytes) (base counter : ℕ) (q : Query) :
    Built A (walkIndexEntries b base counter q) := by
  refine .bind (built_load _ _ _ _) fun _ => .bind (built_load _ _ _ _) fun _ =>
    .iter (fun p => ?_) _ _
  obtain ⟨off, counter⟩ := p
  refine .ite (.bind (built_load _ _ _ _) fun _ => .ite (.ret _)
    (.bind (built_load _ _ _ _) fun _ => .ite (.ret _)
      (.bind (built_load _ _ _ _) fun _ => ?_))) (.ret _)
  refine .ite (.bind (built_visitEntry _ _ _ _) fun r => ?_) (.ret _)
  cases r <;> exact .ret _

end Parsing

lemma built_readMftRecord (fs : NtfsFs) (n : ℕ) : Built ReadStep (readMftRecord fs n) := by
  have hfetch : Built ReadStep (fetchMftRecord fs n) := by
    refine .bind (.step (.read _ _ _)) fun r => ?_
    cases r with
    | none => exact .ret _
    | some b => exact .bind (.step (.mftBuf _)) fun _ => .ret _
  refine .bind hfetch fun _ => .ite (.bind .read fun s => .ite (.ret _) ?_) (.ret _)
  refine .bind (built_load _ _ _ _) fun _ => .bind (built_load _ _ _ _) fun _ =>
    .bind (built_applyFixup _ _ _ _) fun p => ?_
  obtain ⟨buf, ok⟩ := p
  exact .bind (.step (.mftBuf fun _ => buf)) fun _ => .ret _

lemma built_copyRun (fs : NtfsFs) (lcn : ℕ) (v : CopyLoop) : Built ReadStep (copyRun fs lcn v) := by
  refine .iter (fun v => .ite (.bind (.step (.read _ _ _)) fun r => ?_) (.ret _)) _ _
  cases r <;> exact .ret _

lemma built_readNonresident (fs : NtfsFs) (record : Bytes) (attr offset size : ℕ) (out : Bytes) :
    Built ReadStep (readNonresident fs record attr offset size out) := by
  refine .bind (built_load _ _ _ _) fun _ => .iter (fun v => ?_) _ _
  refine .ite (.bind (built_parseRun _ _) fun r => ?_) (.ret _)
  cases r with
  | none => exact .ret _
  | some run =>
    obtain ⟨consumed, runLen, runOff⟩ := run
    refine .ite (.bind (built_copyRun _ _ _) fun p => ?_) (.ret _)
    obtain ⟨ok, c⟩ := p
    exact .ite (.ret _) (.ret _)

lemma built_lookupIndx (fs : NtfsFs) (record : Bytes) (ia off recSize counter : ℕ) (q : Query) :
    Built ReadStep (lookupIndx fs record ia off recSize counter q) := by
  refine .bind .read fun s => .bind (built_readNonresident _ _ _ _ _ _) fun p => ?_
  obtain ⟨rd, stored⟩ := p
  refine .bind (.step (.indxBuf fun _ => stored)) fun _ => .ite (.ret _) (.ite (.ret _) ?_)
  refine .bind (built_load _ _ _ _) fun _ => .bind (built_load _ _ _ _) fun _ =>
    .bind (built_applyFixup _ _ _ _) fun p => ?_
  obtain ⟨buf, ok⟩ := p
  refine .bind (.step (.indxBuf fun _ => buf)) fun _ =>
    .bind (built_walkIndexEntries _ _ _ _) fun r => ?_
  cases r <;> exact .ret _

lemma built_lookupRoot (fs : NtfsFs) (dirMft : ℕ) (q : Query) :
    Built ReadStep (lookupRoot fs dirMft q) := by
  refine .bind (built_readMftRecord _ _) fun rc => .ite (.ret _) (.bind .read fun s => ?_)
  refine .bind (built_findAttr _ _) fun ir => ?_
  cases ir with
  | none => exact .ret _
  | some ir =>
    refine .bind (built_load _ _ _ _) fun _ => .bind (built_walkIndexEntries _ _ _ _) fun r => ?_
    cases r with
    | inr p => exact .ret _
    | inl counter =>
      refine .bind (built_findAttr _ _) fun ia => ?_
      cases ia with
      | none => exact .ret _
      | some ia =>
        exact .bind (built_load _ _ _ _) fun _ =>
          .ite (.ret _) (.bind (built_load _ _ _ _) fun _ => .ret _)

lemma built_ntfsDirLookup (fs : NtfsFs) (dirMft : ℕ) (q : Query) :
    Built ReadStep (ntfsDirLookup fs dirMft q) := by
  refine .bind (built_lookupRoot _ _ _) fun r => ?_
  cases r with
  | inl r => exact .ret _
  | inr a =>
    refine .iter (fun v => .ite (.bind (built_lookupIndx _ _ _ _ _ _ _) fun r => ?_) (.ret _)) _ _
    cases r <;> exact .ret _

lemma built_readFn (e : Found) : Built ReadStep (readFn e) :=
  .bind .read fun _ => .bind (built_fnName _ _) fun _ => .bind (built_load _ _ _ _) fun _ =>
    .bind (built_load _ _ _ _) fun _ => .ret _

/-- What `ntfs_finddir` finds in the directory `nd`. -/
def findAt (nd : NtfsNode) (name : List UInt8) : Program NtfsState (Option RoEntry) := do
  match ← ntfsDirLookup nd.fs nd.inode (.name name) with
  | none => return none
  | some e =>
    let (found, size, type) ← readFn e
    return some ⟨found, type, size, u32 e.mft⟩

/-- The node for an entry of the directory `node`. -/
def newNode (node : ℕ) (fs : NtfsFs) : Option RoEntry → Program NtfsState (Option ℕ)
  | none => pure none
  | some e => allocNode ⟨e.name, e.type, e.size, e.inode, some node, fs⟩

lemma ntfsFinddir_eq (node : ℕ) (name : List UInt8) : ntfsFinddir node name =
    get >>= fun s => findAt (s.nodePool node) name >>= newNode node (s.nodePool node).fs := by
  simp only [ntfsFinddir, findAt, bind_assoc]
  refine congrArg _ (funext fun s => congrArg _ (funext fun r => ?_))
  cases r with
  | none => rfl
  | some e => simp only [bind_assoc, pure_bind, newNode]

lemma built_findAt (nd : NtfsNode) (name : List UInt8) : Built ReadStep (findAt nd name) := by
  refine .bind (built_ntfsDirLookup _ _ _) fun r => ?_
  cases r with
  | none => exact .ret _
  | some e => exact .bind (built_readFn e) fun _ => .ret _

lemma built_readdirAt (nd : NtfsNode) (index : ℕ) : Built ReadStep (readdirAt nd index) := by
  refine .bind (built_ntfsDirLookup _ _ _) fun r => ?_
  cases r with
  | none => exact .ret _
  | some e => exact .bind (built_readFn e) fun _ => .ret _

lemma built_readAt (nd : NtfsNode) (offset size : ℕ) (out : Bytes) :
    Built ReadStep (readAt nd offset size out) := by
  refine .bind (built_readMftRecord _ _) fun rc => .ite (.ret _)
    (.bind .read fun s => .bind (built_findAttr _ _) fun attr => ?_)
  cases attr with
  | none => exact .ret _
  | some attr =>
    refine .bind (built_load _ _ _ _) fun _ => .ite ?_ ?_
    · exact .bind (built_load _ _ _ _) fun _ => .bind (built_load _ _ _ _) fun _ =>
        .ite (.ret _) (.bind (built_inside _ _ _) fun _ => .ret _)
    · exact .bind (built_load _ _ _ _) fun _ => .ite (.ret _) (built_readNonresident _ _ _ _ _ _)

/-- The driver as its outline sees it. -/
def driver : RoDriver NtfsState NtfsNode where
  pools s := ⟨s.blk, s.fsPoolUsed, s.nodePool, s.nodePoolUsed⟩
  setBlk d s := { s with blk := d }
  setBlk_blk _ := rfl
  nodeOf n := ⟨n.name, n.type, n.size, n.inode, n.parent,
    fsOfBoot n.volume.dev n.volume.partLba n.volume.boot⟩

/-- No step writes to a drive. -/
lemma built_quiet {α : Type} {m : Program NtfsState α} (h : Built ReadStep m) :
    Keeps driver.Quiet m := by
  refine h.keeps fun β m hm s => ?_
  cases hm with
  | read dr lba n =>
    exact (wlp_zoom _ _ _ _ s).mpr (wlp_mono (blkRead_sameDrives dr lba n s.blk)
      fun _ _ hd => ⟨hd, rfl, rfl, rfl⟩)
  | mftBuf g => exact (wlp_modify _ _ s).mpr ⟨.refl _, rfl, rfl, rfl⟩
  | indxBuf g => exact (wlp_modify _ _ s).mpr ⟨.refl _, rfl, rfl, rfl⟩

lemma call_readsOnly {α : Type} {m : Program NtfsState α} (h : Built ReadStep m)
    (bufs : NtfsState) : ReadsOnly (driver.call bufs m) := fun d =>
  (wlp_zoom _ _ _ _ d).mpr (wlp_mono (built_quiet h _) fun _ _ hs =>
    ⟨hs.drives.disk, hs.drives.log, hs.drives.fails⟩)

/-- The error code for a boot sector that `ntfs_mount` does not accept. -/
def checkBoot (boot : Bytes) : Option ℤ :=
  if Bytes.slice boot 3 4 ≠ oemId then some (-2)
  else if Bytes.le16 boot 11 ≠ 512 then some (-3)
  else none

/-- `ntfs_mount` reads the record of the volume's file table. -/
def ready (fs : NtfsFs) : Program NtfsState Bool := do
  return (← readMftRecord fs 0) = 0

lemma built_ready (fs : NtfsFs) : Built ReadStep (ready fs) :=
  .bind (built_readMftRecord _ _) fun _ => .ret _

/-- The format that the driver reads, when its buffers have these contents. -/
def format (bufs : NtfsState) : RoFormat where
  check := checkBoot
  ready v := driver.call bufs (ready (fsOfBoot v.dev v.partLba v.boot))
  rootInode _ := 5
  lookup v i name :=
    driver.call bufs (findAt (driver.nodeOf ⟨[], .directory, 0, i, none, v⟩) name)
  readdir v i idx :=
    driver.call bufs (readdirAt (driver.nodeOf ⟨[], .directory, 0, i, none, v⟩) idx)
  read v i size off n out :=
    driver.call bufs (readAt (driver.nodeOf ⟨[], .file, size, i, none, v⟩) off n out)
  ready_readsOnly _ := call_readsOnly (built_ready _) bufs
  lookup_readsOnly _ _ _ := call_readsOnly (built_findAt _ _) bufs
  readdir_readsOnly _ _ _ := call_readsOnly (built_readdirAt _ _) bufs
  read_readsOnly _ _ _ _ _ _ := call_readsOnly (built_readAt _ _ _ _) bufs

/-! ### The outline of the driver -/

section Outline

variable {s s' : NtfsState} {t : RoState} {node : ℕ}

lemma nodePool_eq (h : driver.Outlines s t) (hnode : node < s.nodePoolUsed) :
    s.nodePool node = driver.nodeOf (t.nodePool node) :=
  h.nodes node hnode

/-- Both take the same place in their pools. -/
lemma allocNode_outlines (h : driver.Outlines s t) (n : RoNode) :
    driver.Follows (allocNode (driver.nodeOf n)) (RoFs.allocNode n) s t := by
  have hused : t.nodePoolUsed = s.nodePoolUsed := h.nodePoolUsed
  simp only [RoDriver.Follows, allocNode, RoFs.allocNode, wlp_bind, wlp_get, wp_bind, wp_get, hused]
  refine wlp_ite_intro (fun hfull => ?_) fun hroom => ?_
  · rw [wlp_pure, if_pos (show RoFs.maxRoNodes ≤ _ from hfull), wp_pure]
    exact ⟨rfl, h⟩
  · rw [wlp_bind, wlp_modify, wlp_pure, if_neg (show ¬RoFs.maxRoNodes ≤ _ from hroom), wp_bind,
      wp_modify, wp_pure]
    exact ⟨rfl, h.push n rfl⟩

lemma readdir_outlines (h : driver.Outlines s t) (hnode : node < s.nodePoolUsed) (index : ℕ) :
    driver.Follows (ntfsReaddir node index) (RoFs.readdir (format s) node index) s t := by
  rw [RoDriver.Follows, ntfsReaddir, wlp_bind, wlp_get, nodePool_eq h hnode]
  refine wlp_mono (h.call (built_quiet <| built_readdirAt _ index)) fun r s' hr => ?_
  rw [RoFs.readdir, wp_bind, wp_get]
  exact hr

lemma read_outlines (h : driver.Outlines s t) (hnode : node < s.nodePoolUsed) (offset size : ℕ)
    (out : Bytes) : driver.Follows (ntfsRead node offset size out)
      (RoFs.read (format s) node offset size out) s t := by
  rw [RoDriver.Follows, ntfsRead, wlp_bind, wlp_get, nodePool_eq h hnode]
  refine wlp_mono (h.call (built_quiet <| built_readAt _ offset size out)) fun r s' hr => ?_
  rw [RoFs.read, wp_bind, wp_get]
  exact hr

lemma finddir_outlines (h : driver.Outlines s t) (hnode : node < s.nodePoolUsed)
    (name : List UInt8) :
    driver.Follows (ntfsFinddir node name) (RoFs.finddir (format s) node name) s t := by
  rw [RoDriver.Follows, ntfsFinddir_eq, wlp_bind, wlp_get, wlp_bind, nodePool_eq h hnode]
  refine wlp_mono (h.call (built_quiet <| built_findAt _ name)) fun _ s₁ hfind => ?_
  obtain ⟨e, t₁, hrun, rfl, h₁⟩ := hfind
  cases e with
  | none =>
    refine (wlp_pure _ _ _).mpr ?_
    rw [RoFs.finddir, wp_bind, wp_get, wp_bind]
    exact wp_of_eq hrun ((wp_pure _ _ _).mpr ⟨rfl, h₁⟩)
  | some e =>
    refine wlp_mono (allocNode_outlines h₁ ⟨e.name, e.type, e.size, e.inode, some node, _⟩)
      fun r s' hr => ?_
    rw [RoFs.finddir, wp_bind, wp_get, wp_bind]
    exact wp_of_eq hrun hr

/-- The place of the volume is taken before its record is read. -/
lemma mount_outlines (h : driver.Outlines s t) (dev : Drive) (partLba : ℕ) :
    driver.Follows (ntfsMount dev partLba)
      (RoFs.mount (format { s with fsPoolUsed := s.fsPoolUsed + 1 }) dev partLba) s t := by
  rw [RoDriver.Follows, ntfsMount, wlp_bind, io, wlp_zoom]
  intro b d hread
  have hread' := h.read hread
  have h₁ : driver.Outlines { s with blk := d } { t with blk := d } :=
    h.quiet ⟨blkRead_sameDrives _ _ _ _ b d hread, rfl, rfl, rfl⟩
  split
  · exact (wlp_pure _ _ _).mpr (wp_of_eq (RoFs.mount_unread hread') ⟨rfl, h₁⟩)
  rename_i boot
  refine wlp_ite_intro (fun hoem => ?_) fun hoem => ?_
  · exact (wlp_pure _ _ _).mpr (wp_of_eq (RoFs.mount_refused hread' (if_pos hoem)) ⟨rfl, h₁⟩)
  refine wlp_ite_intro (fun hbytes => ?_) fun hbytes => ?_
  · exact (wlp_pure _ _ _).mpr (wp_of_eq
      (RoFs.mount_refused hread' ((if_neg hoem).trans (if_pos hbytes))) ⟨rfl, h₁⟩)
  have hcheck : checkBoot boot = none := (if_neg hoem).trans (if_neg hbytes)
  rw [wlp_bind, wlp_get]
  refine wlp_ite_intro (fun hfull => ?_) fun hroom => ?_
  · have hfull' : RoFs.maxRoFs ≤ t.fsPoolUsed := h.fsPoolUsed ▸ hfull
    exact (wlp_pure _ _ _).mpr (wp_of_eq (RoFs.mount_full hread' hcheck hfull') ⟨rfl, h₁⟩)
  have hroom' : ¬RoFs.maxRoFs ≤ t.fsPoolUsed := h.fsPoolUsed ▸ hroom
  rw [wlp_bind, wlp_modify, wlp_bind]
  have h₂ : driver.Outlines { s with blk := d, fsPoolUsed := s.fsPoolUsed + 1 }
      { t with blk := d, fsPoolUsed := t.fsPoolUsed + 1 } :=
    ⟨rfl, congrArg (· + 1) h.fsPoolUsed, h.nodePoolUsed, h.nodes⟩
  have hcall := h₂.call (built_quiet (built_ready (fsOfBoot dev partLba boot)))
  rw [RoDriver.Follows, ready, wlp_bind] at hcall
  refine wlp_mono hcall fun rc s₃ hready => ?_
  obtain ⟨ok, t₃, hrun, hok, h₃⟩ := (wlp_pure _ _ _).mp hready
  refine wlp_ite_intro (fun hbad => ?_) fun hgood => ?_
  · obtain rfl : ok = false := hok.trans (decide_eq_false hbad)
    exact (wlp_pure _ _ _).mpr
      (wp_of_eq (RoFs.mount_notReady hread' hcheck hroom' hrun) ⟨rfl, h₃⟩)
  obtain rfl : ok = true := hok.trans (decide_eq_true (not_not.mp hgood))
  rw [wlp_bind]
  refine wlp_mono (allocNode_outlines h₃ (RoFs.rootNode
    (format { s with fsPoolUsed := s.fsPoolUsed + 1 }) ⟨dev, partLba, boot⟩)) fun _ s' hr => ?_
  obtain ⟨r, t', halloc, rfl, h'⟩ := hr
  have hmount := RoFs.mount_root hread' hcheck hroom' hrun halloc
  cases r <;> exact (wlp_pure _ _ _).mpr (wp_of_eq hmount ⟨rfl, h'⟩)

end Outline

end Ntfs

namespace Xfs

/-! ## XFS -/

/-- The steps of the driver but for those that change a pool. -/
inductive ReadStep : (α : Type) → Program XfsState α → Prop
  | readBlock (fs : XfsFs) (block : ℕ) (buf : Bytes) (start : ℕ) :
      ReadStep _ (readBlock fs block buf start)
  | inodeBuf (g : XfsState → Bytes) : ReadStep _ (modify fun s => { s with inodeBuf := g s })
  | blockBuf (b : Bytes) : ReadStep _ (modify fun s => { s with blockBuf := b })
  | inodeBlockBuf (b : Bytes) : ReadStep _ (modify fun s => { s with inodeBlockBuf := b })

section Parsing

variable {σ : Type} {A : (α : Type) → Program σ α → Prop}

lemma built_loadExtent (b : Bytes) (off : ℕ) : Built A (loadExtent b off) :=
  .bind (built_loadBe _ _ _ _) fun _ => .bind (built_loadBe _ _ _ _) fun _ => .ret _

lemma built_xfsResolveExtent (fs : XfsFs) (b : Bytes) (lb i n : ℕ) :
    Built A (xfsResolveExtent fs b lb i n) := by
  induction n generalizing i with
  | zero => exact .ret _
  | succ n ih => exact .bind (built_loadExtent _ _) fun _ => .ite (.ret _) (ih _)

lemma built_xfsSfEntryAt (b : Bytes) (wantIdx : ℕ) : Built A (xfsSfEntryAt b wantIdx) := by
  refine .bind (built_loadBe _ _ _ _) fun _ => .bind (built_loadBe _ _ _ _) fun _ =>
    .iter (fun p => ?_) _ _
  obtain ⟨i, pos⟩ := p
  exact .ite (.bind (built_loadBe _ _ _ _) fun _ => .bind (built_loadBe _ _ _ _) fun _ =>
    .bind (built_loadBe _ _ _ _) fun _ => .ite (.ret _) (.ret _)) (.ret _)

lemma built_xfsBlockEntryAt (b : Bytes) (size wantIdx : ℕ) :
    Built A (xfsBlockEntryAt b size wantIdx) := by
  refine .bind (built_inside _ _ _) fun _ => .iter (fun p => ?_) _ _
  obtain ⟨pos, seen⟩ := p
  exact .ite (.bind (built_loadBe _ _ _ _) fun _ =>
    .ite (.bind (built_loadBe _ _ _ _) fun _ => .ret _)
    (.bind (built_loadBe _ _ _ _) fun _ => .bind (built_loadBe _ _ _ _) fun _ =>
      .bind (built_loadBe _ _ _ _) fun _ => .ite (.ret _) (.ite (.ret _) (.ret _)))) (.ret _)

end Parsing

lemma built_readInodeRaw (fs : XfsFs) (ino : ℕ) : Built ReadStep (readInodeRaw fs ino) := by
  refine .bind .read fun s => .bind (.step (.readBlock _ _ _ _)) fun r => ?_
  cases r with
  | none => exact .ret _
  | some b =>
    refine .bind (.step (.inodeBlockBuf b)) fun _ =>
      .ite (.ret _) (.bind (built_inside _ _ _) fun _ => ?_)
    exact .bind (.step (.inodeBuf _)) fun _ => .bind .read fun _ => .ite (.ret _) (.ret _)

lemma built_loadDirBlocks (fs : XfsFs) (phys : ℕ) : Built ReadStep (loadDirBlocks fs phys) := by
  refine .iter (fun i => .ite (.bind (built_inside _ _ _) fun _ => .bind .read fun s =>
    .bind (.step (.readBlock _ _ _ _)) fun r => ?_) (.ret _)) _ _
  cases r with
  | none => exact .ret _
  | some b => exact .bind (.step (.blockBuf b)) fun _ => .ret _

lemma built_xfsLoadDir (nd : XfsNode) : Built ReadStep (xfsLoadDir nd) :=
  .bind (built_readInodeRaw _ _) fun _ => .ite (.ret _) (.bind .read fun _ => .ite (.ret _)
    (.ite (.ret _) (.ite (.ret _) (.bind (built_loadExtent _ _) fun _ =>
      .ite (.ret _) (.ite (.ret _)
      (.bind (built_loadDirBlocks _ _) fun _ => .ite (.ret _) (.ret _)))))))

lemma built_entryAt (k : DirKind) (idx : ℕ) : Built ReadStep (entryAt k idx) := by
  refine .bind .read fun s => ?_
  cases k with
  | shortform => exact built_xfsSfEntryAt _ _
  | block size => exact built_xfsBlockEntryAt _ _ _

/-- The entry for what `xfs_finddir` has found under `name`. -/
def foundEntry (fs : XfsFs) (name : List UInt8) (e : XfsSfEntry) :
    Program XfsState (Option RoEntry) := do
  if (← readInodeRaw fs e.inumber) ≠ 0 then return none
  else
    let child := (← get).inodeBuf
    let type := if Bytes.beNat child 2 2 / 0x1000 = 4 then .directory else .file
    return some ⟨name.take (maxFilename - 1), type, diSize child, u32 e.inumber⟩

/-- What `xfs_finddir` finds in the directory `nd`. -/
def findAt (nd : XfsNode) (name : List UInt8) : Program XfsState (Option RoEntry) := do
  match ← xfsLoadDir nd with
  | none => return none
  | some kind =>
    iter (fun idx => do
      match ← entryAt kind idx with
      | none => return .inr none
      | some e =>
        if e.namelen = name.length ∧ Bytes.slice (kind.buf (← get)) e.name e.namelen = name then
          return .inr (← foundEntry nd.fs name e)
        else return .inl (idx + 1)) loopFuel 0

/-- The node for an entry of the directory `node`. -/
def newNode (node : ℕ) (fs : XfsFs) : Option RoEntry → Program XfsState (Option ℕ)
  | none => pure none
  | some e => allocNode ⟨e.name, e.type, e.size, e.inode, some node, fs⟩

lemma foundNode_eq (fs : XfsFs) (node : ℕ) (name : List UInt8) (e : XfsSfEntry) :
    foundNode fs node name e = foundEntry fs name e >>= newNode node fs := by
  simp only [foundNode, foundEntry, bind_assoc]
  refine congrArg _ (funext fun rc => ?_)
  split_ifs
  · rfl
  · simp only [bind_assoc, pure_bind, newNode]

lemma xfsFinddir_eq (node : ℕ) (name : List UInt8) : xfsFinddir node name =
    get >>= fun s => findAt (s.nodePool node) name >>= newNode node (s.nodePool node).fs := by
  simp only [xfsFinddir, findAt, bind_assoc]
  refine congrArg _ (funext fun s => congrArg _ (funext fun r => ?_))
  cases r with
  | none => rfl
  | some kind =>
    refine iter_bind (fun idx => ?_) _ _
    rw [bind_assoc]
    refine congrArg _ (funext fun r => ?_)
    cases r with
    | none => rfl
    | some e =>
      dsimp only
      rw [bind_assoc]
      refine congrArg _ (funext fun _ => ?_)
      split_ifs
      · rw [foundNode_eq, bind_assoc, bind_assoc]
        rfl
      · rfl

lemma built_findAt (nd : XfsNode) (name : List UInt8) : Built ReadStep (findAt nd name) := by
  refine .bind (built_xfsLoadDir _) fun r => ?_
  cases r with
  | none => exact .ret _
  | some kind =>
    refine .iter (fun idx => .bind (built_entryAt _ _) fun e => ?_) _ _
    cases e with
    | none => exact .ret _
    | some e =>
      refine .bind .read fun _ => .ite (.bind ?_ fun _ => .ret _) (.ret _)
      exact .bind (built_readInodeRaw _ _) fun _ => .ite (.ret _) (.bind .read fun _ => .ret _)

lemma built_readdirAt (nd : XfsNode) (index : ℕ) : Built ReadStep (readdirAt nd index) := by
  refine .bind (built_xfsLoadDir _) fun r => ?_
  cases r with
  | none => exact .ret _
  | some kind =>
    refine .bind (built_entryAt _ _) fun e => ?_
    cases e with
    | none => exact .ret _
    | some e =>
      exact .bind .read fun _ => .bind (built_readInodeRaw _ _) fun _ => .bind .read fun _ => .ret _

lemma built_copyBlocks (fs : XfsFs) (inode : Bytes) (nextents offset remaining : ℕ) (out : Bytes) :
    Built ReadStep (copyBlocks fs inode nextents offset remaining out) := by
  refine .iter (fun p => ?_) _ _
  obtain ⟨got, out⟩ := p
  refine .ite (.bind (built_xfsResolveExtent _ _ _ _ _) fun phys => .ite (.ret _)
    (.bind .read fun s => .bind (.step (.readBlock _ _ _ _)) fun r => ?_)) (.ret _)
  cases r with
  | none => exact .ret _
  | some b => exact .bind (.step (.blockBuf b)) fun _ => .bind (built_inside _ _ _) fun _ => .ret _

lemma built_readAt (nd : XfsNode) (offset size : ℕ) (out : Bytes) :
    Built ReadStep (readAt nd offset size out) :=
  .ite (.ret _) (.bind (built_readInodeRaw _ _) fun _ => .ite (.ret _)
    (.ite (.ret _) (.bind .read fun _ => .ite (.bind (built_inside _ _ _) fun _ => .ret _)
      (.ite (.ret _) (.bind (built_copyBlocks _ _ _ _ _ _) fun _ => .ret _)))))

/-- The driver as its outline sees it. -/
def driver : RoDriver XfsState XfsNode where
  pools s := ⟨s.blk, s.fsPoolUsed, s.nodePool, s.nodePoolUsed⟩
  setBlk d s := { s with blk := d }
  setBlk_blk _ := rfl
  nodeOf n := ⟨n.name, n.type, n.size, n.inode, n.parent,
    fsOfSb n.volume.dev n.volume.partLba n.volume.boot⟩

/-- No step writes to a drive. -/
lemma built_quiet {α : Type} {m : Program XfsState α} (h : Built ReadStep m) :
    Keeps driver.Quiet m := by
  refine h.keeps fun β m hm s => ?_
  cases hm with
  | readBlock fs block buf start =>
    rw [readBlock, wlp_bind, wlp_zoom]
    refine wlp_mono (blkRead_sameDrives _ _ _ s.blk) fun r d hd => ?_
    cases r <;> exact (wlp_pure _ _ _).mpr ⟨hd, rfl, rfl, rfl⟩
  | inodeBuf g => exact (wlp_modify _ _ s).mpr ⟨.refl _, rfl, rfl, rfl⟩
  | blockBuf b => exact (wlp_modify _ _ s).mpr ⟨.refl _, rfl, rfl, rfl⟩
  | inodeBlockBuf b => exact (wlp_modify _ _ s).mpr ⟨.refl _, rfl, rfl, rfl⟩

lemma call_readsOnly {α : Type} {m : Program XfsState α} (h : Built ReadStep m)
    (bufs : XfsState) : ReadsOnly (driver.call bufs m) := fun d =>
  (wlp_zoom _ _ _ _ d).mpr (wlp_mono (built_quiet h _) fun _ _ hs =>
    ⟨hs.drives.disk, hs.drives.log, hs.drives.fails⟩)

/-- The error code for a superblock that `xfs_mount` does not accept. -/
def checkSb (sb : Bytes) : Option ℤ :=
  if Bytes.beNat sb 0 4 ≠ sbMagic then some (-2)
  else if Bytes.beNat sb 100 2 % 16 = 5 then some (-3)
  else none

/-- A block or an inode of the volume does not fit into its buffer. -/
def tooLarge (fs : XfsFs) : Prop :=
  fs.blockSize = 0 ∨ bufSize < fs.blockSize ∨ fs.inodesize = 0 ∨ bufSize < fs.inodesize

instance (fs : XfsFs) : Decidable (tooLarge fs) := inferInstanceAs (Decidable (_ ∨ _))

/-- The format that the driver reads, when its buffers have these contents. -/
def format (bufs : XfsState) : RoFormat where
  check := checkSb
  ready v := return ¬tooLarge (fsOfSb v.dev v.partLba v.boot)
  rootInode v := u32 (fsOfSb v.dev v.partLba v.boot).rootino
  lookup v i name :=
    driver.call bufs (findAt (driver.nodeOf ⟨[], .directory, 0, i, none, v⟩) name)
  readdir v i idx :=
    driver.call bufs (readdirAt (driver.nodeOf ⟨[], .directory, 0, i, none, v⟩) idx)
  read v i size off n out :=
    driver.call bufs (readAt (driver.nodeOf ⟨[], .file, size, i, none, v⟩) off n out)
  ready_readsOnly _ d := (wlp_pure _ _ d).mpr ⟨rfl, rfl, rfl⟩
  lookup_readsOnly _ _ _ := call_readsOnly (built_findAt _ _) bufs
  readdir_readsOnly _ _ _ := call_readsOnly (built_readdirAt _ _) bufs
  read_readsOnly _ _ _ _ _ _ := call_readsOnly (built_readAt _ _ _ _) bufs

/-! ### The outline of the driver -/

section Outline

variable {s s' : XfsState} {t : RoState} {node : ℕ}

lemma nodePool_eq (h : driver.Outlines s t) (hnode : node < s.nodePoolUsed) :
    s.nodePool node = driver.nodeOf (t.nodePool node) :=
  h.nodes node hnode

/-- Both take the same place in their pools. -/
lemma allocNode_outlines (h : driver.Outlines s t) (n : RoNode) :
    driver.Follows (allocNode (driver.nodeOf n)) (RoFs.allocNode n) s t := by
  have hused : t.nodePoolUsed = s.nodePoolUsed := h.nodePoolUsed
  simp only [RoDriver.Follows, allocNode, RoFs.allocNode, wlp_bind, wlp_get, wp_bind, wp_get, hused]
  refine wlp_ite_intro (fun hfull => ?_) fun hroom => ?_
  · rw [wlp_pure, if_pos (show RoFs.maxRoNodes ≤ _ from hfull), wp_pure]
    exact ⟨rfl, h⟩
  · rw [wlp_bind, wlp_modify, wlp_pure, if_neg (show ¬RoFs.maxRoNodes ≤ _ from hroom), wp_bind,
      wp_modify, wp_pure]
    exact ⟨rfl, h.push n rfl⟩

lemma readdir_outlines (h : driver.Outlines s t) (hnode : node < s.nodePoolUsed) (index : ℕ) :
    driver.Follows (xfsReaddir node index) (RoFs.readdir (format s) node index) s t := by
  rw [RoDriver.Follows, xfsReaddir, wlp_bind, wlp_get, nodePool_eq h hnode]
  refine wlp_mono (h.call (built_quiet <| built_readdirAt _ index)) fun r s' hr => ?_
  rw [RoFs.readdir, wp_bind, wp_get]
  exact hr

lemma read_outlines (h : driver.Outlines s t) (hnode : node < s.nodePoolUsed) (offset size : ℕ)
    (out : Bytes) : driver.Follows (xfsRead node offset size out)
      (RoFs.read (format s) node offset size out) s t := by
  rw [RoDriver.Follows, xfsRead, wlp_bind, wlp_get, nodePool_eq h hnode]
  refine wlp_mono (h.call (built_quiet <| built_readAt _ offset size out)) fun r s' hr => ?_
  rw [RoFs.read, wp_bind, wp_get]
  exact hr

lemma finddir_outlines (h : driver.Outlines s t) (hnode : node < s.nodePoolUsed)
    (name : List UInt8) :
    driver.Follows (xfsFinddir node name) (RoFs.finddir (format s) node name) s t := by
  rw [RoDriver.Follows, xfsFinddir_eq, wlp_bind, wlp_get, wlp_bind, nodePool_eq h hnode]
  refine wlp_mono (h.call (built_quiet <| built_findAt _ name)) fun _ s₁ hfind => ?_
  obtain ⟨e, t₁, hrun, rfl, h₁⟩ := hfind
  cases e with
  | none =>
    refine (wlp_pure _ _ _).mpr ?_
    rw [RoFs.finddir, wp_bind, wp_get, wp_bind]
    exact wp_of_eq hrun ((wp_pure _ _ _).mpr ⟨rfl, h₁⟩)
  | some e =>
    refine wlp_mono (allocNode_outlines h₁ ⟨e.name, e.type, e.size, e.inode, some node, _⟩)
      fun r s' hr => ?_
    rw [RoFs.finddir, wp_bind, wp_get, wp_bind]
    exact wp_of_eq hrun hr

lemma rootNode_eq (bufs : XfsState) (dev : Drive) (partLba : ℕ) (sb : Bytes) :
    rootNode (fsOfSb dev partLba sb) =
      driver.nodeOf (RoFs.rootNode (format bufs) ⟨dev, partLba, sb⟩) :=
  rfl

lemma ready_eq (bufs : XfsState) {dev : Drive} {partLba : ℕ} {sb : Bytes} {ok : Bool}
    (hok : decide (¬tooLarge (fsOfSb dev partLba sb)) = ok) (t : RoState) :
    RoFs.io ((format bufs).ready ⟨dev, partLba, sb⟩) t = some (ok, t) :=
  hok ▸ rfl

/-- The place of the volume is taken before its geometry is checked. -/
lemma mount_outlines (h : driver.Outlines s t) (dev : Drive) (partLba : ℕ) :
    driver.Follows (xfsMount dev partLba) (RoFs.mount (format s) dev partLba) s t := by
  rw [RoDriver.Follows, xfsMount, wlp_bind, wlp_zoom]
  intro b d hread
  have hread' := h.read hread
  have h₁ : driver.Outlines { s with blk := d } { t with blk := d } :=
    h.quiet ⟨blkRead_sameDrives _ _ _ _ b d hread, rfl, rfl, rfl⟩
  split
  · exact (wlp_pure _ _ _).mpr (wp_of_eq (RoFs.mount_unread hread') ⟨rfl, h₁⟩)
  rename_i sb
  refine wlp_ite_intro (fun hmagic => ?_) fun hmagic => ?_
  · exact (wlp_pure _ _ _).mpr (wp_of_eq (RoFs.mount_refused hread' (if_pos hmagic)) ⟨rfl, h₁⟩)
  refine wlp_ite_intro (fun hversion => ?_) fun hversion => ?_
  · exact (wlp_pure _ _ _).mpr (wp_of_eq
      (RoFs.mount_refused hread' ((if_neg hmagic).trans (if_pos hversion))) ⟨rfl, h₁⟩)
  have hcheck : checkSb sb = none := (if_neg hmagic).trans (if_neg hversion)
  rw [wlp_bind, wlp_get]
  refine wlp_ite_intro (fun hfull => ?_) fun hroom => ?_
  · have hfull' : RoFs.maxRoFs ≤ t.fsPoolUsed := h.fsPoolUsed ▸ hfull
    exact (wlp_pure _ _ _).mpr (wp_of_eq (RoFs.mount_full hread' hcheck hfull') ⟨rfl, h₁⟩)
  have hroom' : ¬RoFs.maxRoFs ≤ t.fsPoolUsed := h.fsPoolUsed ▸ hroom
  rw [wlp_bind, wlp_modify]
  have h₂ : driver.Outlines { s with blk := d, fsPoolUsed := s.fsPoolUsed + 1 }
      { t with blk := d, fsPoolUsed := t.fsPoolUsed + 1 } :=
    ⟨rfl, congrArg (· + 1) h.fsPoolUsed, h.nodePoolUsed, h.nodes⟩
  refine wlp_ite_intro (fun hbad => ?_) fun hgood => ?_
  · have hready := ready_eq s (decide_eq_false (not_not.mpr hbad))
    exact (wlp_pure _ _ _).mpr
      (wp_of_eq (RoFs.mount_notReady hread' hcheck hroom' (hready _)) ⟨rfl, h₂⟩)
  have hready := ready_eq s (decide_eq_true hgood)
  rw [wlp_bind, rootNode_eq s]
  refine wlp_mono (allocNode_outlines h₂ (RoFs.rootNode (format s) ⟨dev, partLba, sb⟩))
    fun _ s' hr => ?_
  obtain ⟨r, t', halloc, rfl, h'⟩ := hr
  have hmount := RoFs.mount_root hread' hcheck hroom' (hready _) halloc
  cases r <;> exact (wlp_pure _ _ _).mpr (wp_of_eq hmount ⟨rfl, h'⟩)

end Outline

end Xfs

/-- The two drivers, with buffers that nothing has been read into. -/
def RoFormats.drivers : RoFormats where
  ntfs := Ntfs.format ⟨noDrives, .zeros, .zeros, 0, fun _ =>
    Ntfs.rootNode (Ntfs.fsOfBoot ⟨0, 0⟩ 0 .zeros), 0⟩
  xfs := Xfs.format
    ⟨noDrives, .zeros, .zeros, .zeros, 0, fun _ => Xfs.rootNode (Xfs.fsOfSb ⟨0, 0⟩ 0 .zeros), 0⟩
where
  /-- The drives are those of the kernel whenever a driver is called. -/
  noDrives : BlkDev := ⟨fun _ => .zeros, fun _ => false, 0, []⟩

end CoolFrost

import CoolFrost.Fs.Ext2.Unlinking

/-!
# ext2: directories stay covered

`ext2_insert_dirent`, `ext2_create`, `ext2_rename` and `ext2_unlink` leave a directory whose blocks
are exactly covered by records that way, with the entries that it had but for the one that the call
is about.  What has been put in is found again if there is a node for it.
-/

namespace CoolFrost

open Program

namespace Ext2

variable {fs : Ext2Fs} {p : Plan} {v v' : Vol} {D E ino ino' i dir : ℕ} {L LE : DirBlocks}
  {a b name : List UInt8} {ft : UInt8} {r : RecordAt}

/-! ## Inserting -/

/-- A name of a wrong length is refused. -/
lemma vol_insert_refused (hname : ¬(name.length ≠ 0 ∧ name.length ≤ 255)) (dir : ℕ) :
    (volView fs p).wp (ext2InsertDirent fs dir name ino' ft)
    (fun ok v' => ok = false ∧ v' = v) v := by
  refine View.wp_ite (fun _ => View.wp_pure ⟨rfl, rfl⟩) fun hbad => absurd ?_ hname
  omega

/-- The directory has got one more entry. -/
lemma InsertOutcome.lists (hl : Layout fs) (hp : p.Fits fs) (hr : Reserved fs p v)
    (h : DirOn fs p v D L) (hname : name.length ≤ 255) (hino : 0 < ino' ∧ ino' < 2 ^ 32)
    (hout : InsertOutcome fs p v D (recordsOf fs v L) name ino' ft true v') :
    ∃ L', DirOn fs p v' D L' ∧ liveEntries fs v' L' = ⟨ino', ft, name⟩ ::ₘ liveEntries fs v L := by
  obtain ⟨L', phys, off, hdir, hperm, -⟩ := hout.dirOn hl hp hr h hname hino
  refine ⟨L', hdir, ?_⟩
  rw [liveEntries, liveEntries, Multiset.cons_coe]
  exact Multiset.coe_eq_coe.mpr (hperm.map _)

/-- What becomes of a directory when an entry is put into it. -/
lemma vol_insert_lists (hl : Layout fs) (hp : p.Fits fs) (hr : Reserved fs p v)
    (h : DirOn fs p v (v.nodes dir).inode L) (hino : 0 < ino' ∧ ino' < 2 ^ 32) :
    (volView fs p).wp (ext2InsertDirent fs dir name ino' ft) (fun ok v' => ok = true →
      (name.length ≤ 255 ∧ v'.nodes = v.nodes ∧ v'.nodesUsed = v.nodesUsed) ∧
      ∃ L', DirOn fs p v' (v.nodes dir).inode L' ∧
        liveEntries fs v' L' = ⟨ino', ft, name⟩ ::ₘ liveEntries fs v L) v := by
  by_cases hname : name.length ≠ 0 ∧ name.length ≤ 255
  swap
  · refine View.wp_mono (vol_insert_refused hname dir) ?_
    rintro ok v' ⟨rfl, -⟩ htrue
    cases htrue
  refine View.wp_mono (vol_insert_dirOn hl hp hr rfl h hname) ?_
  rintro ok v' hout rfl
  obtain ⟨-, -, ⟨-, hused, hnodes⟩, -⟩ := hout.changed hl hp h
  exact ⟨⟨hname.2, hnodes, hused⟩, hout.lists hl hp hr h hname.2 hino⟩

/-! ## Looking up -/

/-- `ext2_finddir` makes a node of what the name leads to, if there is one left. -/
lemma vol_finddir (hl : Layout fs) (hp : p.Fits fs) (hfs : (v.nodes dir).fs = fs)
    (h : DirOn fs p v (v.nodes dir).inode L) (hres : Resolves fs p v (v.nodes dir).inode name i) :
    (volView fs p).wp (ext2Finddir dir name) (fun n v' =>
      if v.nodesUsed < maxExt2Nodes then n = some v.nodesUsed ∧ (v'.nodes v.nodesUsed).inode = i
      else n = none) v := by
  obtain ⟨L', r, hL', hfind, rfl⟩ := hres
  rw [(hL'.records hl).unique (h.records hl)] at hfind
  refine vol_of_raw fun d hd hv => ?_
  have hrs := h.recordsIn hl d hd (congrArg Vol.data hv)
  have hinode : inodeIn fs p v (v.nodes dir).inode = inodeOn fs d (v.nodes dir).inode := by
    rw [← inodeIn_eq hl hp hd h.inode, hv]
  rw [hinode] at hrs
  refine View.wp_mono (@wp_finddir fs ⟨d, v.nodes, v.nodesUsed⟩ dir _ _ hfs rfl hrs name) ?_
  intro n w hw
  rw [hfind] at hw
  dsimp only at hw
  by_cases hroom : v.nodesUsed < maxExt2Nodes
  · rw [if_neg (not_le.mpr hroom)] at hw
    obtain ⟨rfl, rfl⟩ := hw
    rw [if_pos hroom]
    refine ⟨hd, rfl, ?_⟩
    change (Function.update v.nodes v.nodesUsed _ v.nodesUsed).inode = _
    rw [Function.update_self]
    rfl
  · rw [if_pos (not_lt.mp hroom)] at hw
    obtain ⟨rfl, rfl⟩ := hw
    rw [if_neg hroom]
    exact ⟨hd, rfl⟩

/-! ## Creating -/

lemma InodeIn.bounds (hl : Layout fs) (h : InodeIn fs ino) : 0 < ino ∧ ino < 2 ^ 32 := by
  have hlt := hl.inodes
  have hcount := hl.inodesCount
  have hpos := h.1
  have hle := h.2
  omega

lemma vol_create_lists (hl : Layout fs) (hp : p.Fits fs) (hr : Reserved fs p v)
    (hfs : (v.nodes dir).fs = fs) (h : DirOn fs p v (v.nodes dir).inode L)
    (hused : v.inodeUsed (v.nodes dir).inode = true) :
    (volView fs p).wp (ext2Create dir name) (fun r v' => r ≠ none → ∃ ino',
      Lists fs p v' (v.nodes dir).inode (⟨ino', ftRegFile, name⟩ ::ₘ liveEntries fs v L)) v := by
  refine View.wp_get fun s _ hs => ?_
  have hpool : s.nodePool = v.nodes := congrArg Vol.nodes hs
  rw [hpool]
  generalize hnd : v.nodes dir = nd at h hfs hused ⊢
  extract_lets nd' fs'
  have hnd' : nd' = nd := rfl
  have hfs' : fs' = fs := hfs
  rw [hfs', hnd']
  refine View.wp_ite (fun _ => View.wp_pure fun hne => absurd rfl hne) fun _ => ?_
  refine View.wp_ite (fun _ => View.wp_pure fun hne => absurd rfl hne) fun _ => ?_
  refine View.wp_ite (fun _ => View.wp_pure fun hne => absurd rfl hne) fun hname => ?_
  refine View.wp_bind (vol_allocInode hl hp) ?_
  rintro ino v₁ (⟨rfl, rfl, -⟩ | ⟨hav, rfl⟩)
  · exact View.wp_ite (fun _ => View.wp_pure fun hne => absurd rfl hne) fun h => absurd rfl h
  refine View.wp_ite (fun h0 => absurd hav.1.1 (by omega)) fun _ => ?_
  -- taking the inode leaves the drive
  have hdata : (v.takeInode fs ino).data = v.data := rfl
  obtain ⟨hdir, -⟩ := h.frame hl (ChangedIn.of_data hdata) (fun _ hb => hb) (Set.disjoint_empty _)
    (Set.notMem_empty nd.inode)
  have hnode : ((v.takeInode fs ino).nodes dir).inode = nd.inode := congrArg Ext2Node.inode hnd
  have hr' : Reserved fs p (v.takeInode fs ino) := hr.mono fun _ hu => hu
  refine View.wp_bind (vol_insert_dirOn hl hp hr' hnode hdir ⟨by omega, by omega⟩) ?_
  rintro ok v₂ hout
  refine View.wp_ite (fun hok => ?_) fun hok => ?_
  · obtain rfl : ok = true := hok
    obtain ⟨L', hdir', hentries⟩ := hout.lists hl hp hr' hdir (by omega) (hav.1.bounds hl)
    refine View.wp_mono (vol_finishNewFileNode hl hp hav.1) ?_
    rintro r v₃ ⟨-, -, hdata⟩ -
    -- the new inode is not that of the directory
    have hne : nd.inode ≠ ino := fun heq => by
      rw [heq, hav.2.1] at hused
      cases hused
    have hput := ChangedIn.putInode (v := v₂) hl hp hav.1 newFileInode
    obtain ⟨hlisted, hsame⟩ := hdir'.toListed.congr hl
      ((inodeIn_congr hdata nd.inode).trans (hput.inodes _ h.inode hne))
      (fun j hj x hx => (blockIn_congr hdata x).trans
        (hput.blocks x (hdir'.path j hj x hx).1 (Set.notMem_empty x)))
      fun x hx => (blockIn_congr hdata x.1).trans
        (hput.blocks _ (hdir'.file x hx) (Set.notMem_empty _))
    refine ⟨ino, L', hlisted, ?_⟩
    rw [hsame]
    exact hentries
  · refine View.wp_bind (vol_freeInode hl hp hav.1) ?_
    rintro _ v₃ -
    exact View.wp_pure fun hne => absurd rfl hne

/-! ## Renaming -/

/-- After a call that returns 0 an entry with the old name has the new one. -/
lemma RenameOutcome.entryMoved (hl : Layout fs) (hp : p.Fits fs) (hr : Reserved fs p v)
    (hD : DirOn fs p v D L) (hE : DirOn fs p v E LE)
    (hapart : D ≠ E → Disjoint (ownBlocks fs v (inodeIn fs p v D))
      (ownBlocks fs v (inodeIn fs p v E)))
    {rc : ℤ} (h0 : rc = 0) (hout : RenameOutcome fs p v D E L LE a b rc v') :
    ∃ e, (a.length ≤ 255 → e.name = a) ∧ EntryMoved fs p v D E e b v' := by
  cases hout with
  | refused hrc => exact absurd h0 hrc.ne
  | inPlace hfind hsame hfit hb =>
    subst hsame
    exact ⟨_, (lookupRecord_some hfind).2.2.2, entryMoved_inPlace hl hp hD hfind hb hfit⟩
  | failed => exact absurd h0 (by norm_num)
  | moved hfind hb hout =>
    exact ⟨_, (lookupRecord_some hfind).2.2.2,
      (entryMoved_moved hl hp hD hfind hb hr hE hapart hout rfl).1⟩

/-! ## Unlinking -/

/-- Clearing an entry leaves what the pointers of a file lead to. -/
lemma Pointers.clearEntry (hl : Layout fs) {inode : Bytes} (h : Pointers fs p v inode)
    (hne : iBlock inode 12 ≠ r.phys) : Pointers fs p (v.clearEntry fs r) inode := by
  refine ⟨fun x hx => h.blocks x ?_, h.indirect⟩
  have hwords : wordsOf fs (v.clearEntry fs r) (iBlock inode 12) =
      wordsOf fs v (iBlock inode 12) := by
    unfold wordsOf Vol.clearEntry
    rw [blockIn_write_of_ne hl hne]
  unfold pointedBlocks at hx ⊢
  rwa [hwords] at hx

/-- What the pointers of the file lead to are blocks of the volume, and its indirect block is none
of the directory. -/
def PointsInside (fs : Ext2Fs) (p : Plan) (v : Vol) (L : DirBlocks) (inode : Bytes) : Prop :=
  Pointers fs p v inode ∧ iBlock inode 12 ∉ L.map Prod.fst

/-- The directory has lost an entry called `name`. -/
def EntryGone (fs : Ext2Fs) (p : Plan) (v : Vol) (D : ℕ) (name : List UInt8) (v' : Vol) : Prop :=
  ∃ e es, (name.length ≤ 255 → e.name = name) ∧ Lists fs p v D (e ::ₘ es) ∧ Lists fs p v' D es

lemma vol_unlink_lists (hl : Layout fs) (hp : p.Fits fs) (hfs : (v.nodes dir).fs = fs)
    (h : DirOn fs p v (v.nodes dir).inode L) (hinodes : ∀ e ∈ liveEntries fs v L,
      InodeIn fs e.inode)
    (hinside : ∀ r, lookupRecord (recordsOf fs v L) name = some r →
      Unlinks (v.nodes dir) name (target fs p v r) → iLinksCount (target fs p v r) ≤ 1 →
      PointsInside fs p v L (target fs p v r)) :
    (volView fs p).wp (ext2Unlink dir name)
      (fun rc v' => rc = 0 → EntryGone fs p v (v.nodes dir).inode name v') v := by
  have hrecord : ∀ r, lookupRecord (recordsOf fs v L) name = some r →
      InodeIn fs (deInode r.buf r.off) ∧ r.phys ∈ L.map Prod.fst := by
    intro r hr
    have hmem := (lookupRecord_some hr).1
    obtain ⟨offs, hx, -⟩ := mem_entriesOf.mp hmem
    exact ⟨hinodes _ (mem_liveEntries.mpr ⟨_, _, hmem⟩), List.mem_map_of_mem hx⟩
  refine View.wp_mono (vol_unlink hl hp hfs h fun r hr => ⟨(hrecord r hr).1, fun hu hlast => ?_⟩) ?_
  · obtain ⟨hpointers, hnot⟩ := hinside r hr hu hlast
    exact hpointers.clearEntry hl fun heq => hnot (heq ▸ (hrecord r hr).2)
  rintro rc v' hout h0
  cases hout with
  | refused hrc => exact absurd h0 hrc.ne
  | @unlinked r hr hu =>
    obtain ⟨hmem, hbuf, -, hname⟩ := lookupRecord_some hr
    have hne : (v.nodes dir).inode ≠ deInode r.buf r.off := fun heq => by
      have hdir := h.isDir
      rw [heq, hu.notDir] at hdir
      cases hdir
    obtain ⟨hlisted, hperm⟩ :=
      lists_unlinked hl hp h hmem (target fs p v r) hbuf (hrecord r hr).1 hne
    exact ⟨_, _, hname, h.toListed.lists_cons hperm, hlisted.lists (List.Perm.refl _)⟩

/-! ## The calls -/

/-- The drive holds a volume in order, and no transfer fails. -/
structure SoundVolume (fs : Ext2Fs) (p : Plan) (s : Ext2State) : Prop where
  good : (volView fs p).good s
  layout : Layout fs
  fits : p.Fits fs
  reserved : Reserved fs p ((volView fs p).view s)

/-- The node `dir` is a directory in use whose blocks are covered by records, and whose entries lead
to inodes of the volume. -/
structure OpenDir (fs : Ext2Fs) (p : Plan) (s : Ext2State) (dir : ℕ) (L : DirBlocks) : Prop where
  node : (s.nodePool dir).fs = fs
  dirOn : DirOn fs p ((volView fs p).view s) (s.nodePool dir).inode L
  used : ((volView fs p).view s).inodeUsed (s.nodePool dir).inode = true
  inodes : ∀ e ∈ liveEntries fs ((volView fs p).view s) L, InodeIn fs e.inode

/-- `ext2_finddir` of the name makes a node of the inode `ino`. -/
def Finds (dir : ℕ) (name : List UInt8) (ino : ℕ) (s : Ext2State) : Prop :=
  wp (ext2Finddir dir name) (fun n s' => ∃ k, n = some k ∧ (s'.nodePool k).inode = ino) s

/-- After an entry has been put in, the directory has got it besides the others.  If no other entry
had the name, it is found exactly when there is a node for it. -/
lemma insert_covered {s : Ext2State} (hv : SoundVolume fs p s) (h : OpenDir fs p s dir L)
    (hino : 0 < ino' ∧ ino' < 2 ^ 32) :
    wp (ext2InsertDirent fs dir name ino' ft) (fun ok s' => ok = true →
      Lists fs p ((volView fs p).view s') (s.nodePool dir).inode
        (⟨ino', ft, name⟩ ::ₘ liveEntries fs ((volView fs p).view s) L) ∧
      ((∀ e ∈ liveEntries fs ((volView fs p).view s) L, e.name ≠ name) →
        (Finds dir name ino' s' ↔ s.nodePoolUsed < maxExt2Nodes))) s := by
  have hrun := @vol_insert_lists fs p _ ino' dir L name ft hv.layout hv.fits
    hv.reserved h.dirOn hino
  refine wp_mono (hrun s hv.good rfl) fun ok s' hpost htrue => ?_
  obtain ⟨hgood, hpost⟩ := hpost
  obtain ⟨⟨hlen, hnodes, hused⟩, L', hdir, hentries⟩ := hpost htrue
  have hlists : Lists fs p ((volView fs p).view s') (s.nodePool dir).inode
      (⟨ino', ft, name⟩ ::ₘ liveEntries fs ((volView fs p).view s) L) :=
      ⟨L', hdir.toListed, hentries⟩
  refine ⟨hlists, fun hfresh => ?_⟩
  have hres := hlists.resolves hlen hfresh
  have hnode : ((volView fs p).view s').nodes dir = s.nodePool dir := congrFun hnodes dir
  have hroom : ((volView fs p).view s').nodesUsed = s.nodePoolUsed := hused
  change DirOn fs p _ (s.nodePool dir).inode L' at hdir
  rw [← hnode] at hdir hres
  have hfind := vol_finddir hv.layout hv.fits (hnode ▸ h.node) hdir hres s' hgood rfl
  rw [hroom] at hfind
  constructor
  · rintro ⟨n, s₁, hm, k, rfl, -⟩
    by_contra hfull
    obtain ⟨n', s₂, hm', -, hn⟩ := hfind
    rw [if_neg hfull] at hn
    rw [hm, hn] at hm'
    cases (Prod.mk.inj (Option.some.inj hm')).1
  · intro hlt
    refine wp_mono hfind ?_
    rintro n s'' ⟨-, hn⟩
    rw [if_pos hlt] at hn
    exact ⟨_, hn.1, hn.2⟩

/-- The calls that change a directory leave its blocks covered by records, and its other entries as
they are. -/
theorem directories_stay_covered {s : Ext2State} (hv : SoundVolume fs p s)
    (h : OpenDir fs p s dir L) :
    (∀ name ino' ft, 0 < ino' ∧ ino' < 2 ^ 32 →
      wp (ext2InsertDirent fs dir name ino' ft) (fun ok s' => ok = true →
        Lists fs p ((volView fs p).view s') (s.nodePool dir).inode
          (⟨ino', ft, name⟩ ::ₘ liveEntries fs ((volView fs p).view s) L) ∧
        ((∀ e ∈ liveEntries fs ((volView fs p).view s) L, e.name ≠ name) →
          (Finds dir name ino' s' ↔ s.nodePoolUsed < maxExt2Nodes))) s) ∧
    (∀ name, wp (ext2Create dir name) (fun r s' => r ≠ none → ∃ ino',
      Lists fs p ((volView fs p).view s') (s.nodePool dir).inode
        (⟨ino', ftRegFile, name⟩ ::ₘ liveEntries fs ((volView fs p).view s) L)) s) ∧
    (∀ newDir LE a b, OpenDir fs p s newDir LE →
      ((s.nodePool dir).inode ≠ (s.nodePool newDir).inode → Disjoint
        (ownBlocks fs ((volView fs p).view s)
          (inodeIn fs p ((volView fs p).view s) (s.nodePool dir).inode))
        (ownBlocks fs ((volView fs p).view s)
          (inodeIn fs p ((volView fs p).view s) (s.nodePool newDir).inode))) →
      wp (ext2Rename dir a newDir b) (fun rc s' => rc = 0 → ∃ e, (a.length ≤ 255 → e.name = a) ∧
        EntryMoved fs p ((volView fs p).view s) (s.nodePool dir).inode (s.nodePool newDir).inode e b
          ((volView fs p).view s')) s) ∧
    ∀ name, (∀ r, lookupRecord (recordsOf fs ((volView fs p).view s) L) name = some r →
        Unlinks (s.nodePool dir) name (target fs p ((volView fs p).view s) r) →
        iLinksCount (target fs p ((volView fs p).view s) r) ≤ 1 →
        PointsInside fs p ((volView fs p).view s) L (target fs p ((volView fs p).view s) r)) →
      wp (ext2Unlink dir name) (fun rc s' => rc = 0 →
        EntryGone fs p ((volView fs p).view s) (s.nodePool dir).inode name
        ((volView fs p).view s')) s := by
  refine ⟨fun name ino' ft hino => insert_covered hv h hino, fun name => ?_,
    fun newDir LE a b hE hapart => ?_, fun name hinside => ?_⟩
  · have hrun := @vol_create_lists fs p _ dir L name hv.layout hv.fits hv.reserved
      h.node h.dirOn h.used
    exact wp_mono (hrun s hv.good rfl) fun r s' hpost => hpost.2
  · have hrun := @vol_rename fs p _ L LE a b hv.layout hv.fits hv.reserved dir newDir h.node h.dirOn
      hE.dirOn fun r hr => h.inodes _ (mem_liveEntries.mpr ⟨_, _, (lookupRecord_some hr).1⟩)
    exact wp_mono (hrun s hv.good rfl) fun rc s' hpost h0 =>
      hpost.2.entryMoved hv.layout hv.fits hv.reserved h.dirOn hE.dirOn hapart h0
  · have hrun := @vol_unlink_lists fs p _ dir L name hv.layout hv.fits h.node h.dirOn
      h.inodes hinside
    exact wp_mono (hrun s hv.good rfl) fun rc s' hpost => hpost.2

lemma oneEntry_sound (n : ℕ) : SoundVolume oneEntry.fs oneEntry.plan (oneEntry.state n) where
  good := oneEntry_ok.good n
  layout := oneEntry_ok.layout
  fits := oneEntry_ok.fits
  reserved := oneEntry_ok.reserved (show ∀ b < 7, (oneEntry.vol 1).used b = true by decide)

lemma oneEntry_live (n : ℕ) : liveEntries oneEntry.fs (oneEntry.vol n) [(7, [0])] =
    {⟨13, 1, [97]⟩} := by
  have h := oneEntry_ok.entriesOf_dir (n := n) (show (oneEntry.vol 1).used 7 = true by decide)
    oneEntry_covered.1
  rw [oneEntry_covered.2] at h
  change entriesOf oneEntry.fs (oneEntry.vol n) [(7, [0])] = [(7, 0, ⟨13, 1, [97]⟩)] at h
  rw [liveEntries, h]
  rfl

/-- There is room in the record of the one entry. -/
lemma oneEntry_hasRoom (n : ℕ) :
    HasRoom (recordsOf oneEntry.fs (oneEntry.vol n) [(7, [0])]) [98] := by
  have hblock := oneEntry_ok.blockIn_dir (n := n) (show (oneEntry.vol 1).used 7 = true by decide)
  change blockIn oneEntry.fs (oneEntry.vol n) 7 = _ at hblock
  refine ⟨⟨7, 0, blockIn oneEntry.fs (oneEntry.vol n) 7⟩, List.mem_singleton_self _, ?_⟩
  rw [hblock]
  decide

lemma oneEntry_open (n : ℕ) : OpenDir oneEntry.fs oneEntry.plan (oneEntry.state n) 0
    [(7, [0])] where
  node := rfl
  dirOn := oneEntry_ok.dirOn (show (oneEntry.vol 1).used 7 = true by decide) oneEntry_covered.1
  used := show (oneEntry.vol 1).inodeUsed 12 = true by decide
  inodes e he := by
    rw [oneEntry_live, Multiset.mem_singleton] at he
    rw [he]
    decide

/-- A hard link "b" is put into the directory. -/
theorem directories_stay_covered_oneEntry : wp (ext2InsertDirent oneEntry.fs 0 [98] 13 1)
    (fun ok s' => ok = true →
      Lists oneEntry.fs oneEntry.plan ((volView oneEntry.fs oneEntry.plan).view s') 12
        (⟨13, 1, [98]⟩ ::ₘ liveEntries oneEntry.fs (oneEntry.vol 1) [(7, [0])]) ∧
      ((∀ e ∈ liveEntries oneEntry.fs (oneEntry.vol 1) [(7, [0])], e.name ≠ [98]) →
        (Finds 0 [98] 13 s' ↔ (oneEntry.state 1).nodePoolUsed < maxExt2Nodes)))
        (oneEntry.state 1) :=
  (directories_stay_covered (oneEntry_sound 1) (oneEntry_open 1)).1 [98] 13 1 (by decide)

/-- With no node left, what has been put in is not found. -/
theorem not_found_without_node :
    ¬∀ (fs : Ext2Fs) (p : Plan) (s : Ext2State) (dir : ℕ) (L : DirBlocks)
    (name : List UInt8) (ino : ℕ) (ft : UInt8), SoundVolume fs p s → OpenDir fs p s dir L →
    0 < ino ∧ ino < 2 ^ 32 → (∀ e ∈ liveEntries fs ((volView fs p).view s) L, e.name ≠ name) →
    wp (ext2InsertDirent fs dir name ino ft) (fun ok s' => ok = true →
    Finds dir name ino s') s := by
  intro hall
  have hsound := oneEntry_sound maxExt2Nodes
  have hopen := oneEntry_open maxExt2Nodes
  have hfresh : ∀ e ∈ liveEntries oneEntry.fs (oneEntry.vol maxExt2Nodes) [(7, [0])],
      e.name ≠ [98] := by
    intro e he
    rw [oneEntry_live, Multiset.mem_singleton] at he
    rw [he]
    decide
  have hins := @vol_insert_dirOn _ _ (oneEntry.vol maxExt2Nodes) 12 13 _
    [98] hsound.layout hsound.fits
    hsound.reserved 0 1 rfl hopen.dirOn (by decide)
  obtain ⟨ok, s', hm, -, hout⟩ := hins _ hsound.good rfl
  have hok : ok = true := hout.insertion.accepts.mpr (.inl (oneEntry_hasRoom _))
  obtain ⟨ok₁, s₁, hm₁, hfinds⟩ := hall _ _ _ 0 _ [98] 13 1 hsound hopen (by decide) hfresh
  obtain ⟨ok₂, s₂, hm₂, hcov⟩ := @insert_covered _ _ 13 0 _ [98] 1 _ hsound hopen (by decide)
  rw [hm, Option.some.injEq, Prod.mk.injEq] at hm₁ hm₂
  obtain ⟨rfl, rfl⟩ := hm₁
  obtain ⟨rfl, rfl⟩ := hm₂
  exact absurd (((hcov hok).2 hfresh).mp (hfinds hok)) (lt_irrefl _)

end Ext2

end CoolFrost

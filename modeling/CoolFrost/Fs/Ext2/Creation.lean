import CoolFrost.Fs.Ext2.Directories
import CoolFrost.Fs.Ext2.Inodes
import CoolFrost.Fs.Ext2.OneFile

/-!
# ext2: creating files

`ext2_create` takes an inode, then puts the entry into the directory, then writes the inode, and
asks for a node of the pool last of all.  Only the inode is given back when something goes wrong on
the way.
-/

namespace CoolFrost

open Program

namespace Ext2

variable {fs : Ext2Fs} {p : Plan} {v v' : Vol} {inode : Bytes} {rs : List RecordAt}
  {name : List UInt8} {α γ : Type}

/-! ## Directories of a volume -/

/-- The records of a directory; no byte of the books is one of theirs. -/
def RecordsIn (fs : Ext2Fs) (p : Plan) (v : Vol) (inode : Bytes) (rs : List RecordAt) : Prop :=
  ∀ d, Planned fs p d → (volOn fs p d v.nodes v.nodesUsed).data = v.data → Records fs d inode 0 rs

/-- A directory with the records `rs`, all of them in blocks of the directory. -/
structure DirIn (fs : Ext2Fs) (p : Plan) (v : Vol) (ino : ℕ) (rs : List RecordAt) : Prop where
  inode : InodeIn fs ino
  records : RecordsIn fs p v (inodeIn fs p v ino) rs
  blocks : ∀ r ∈ rs, FileBlock fs p v r.phys
  indirect : usesExtents (inodeIn fs p v ino) = false → IndirectOk fs p v (inodeIn fs p v ino)
  mapped : ∀ lb, mapOf fs v (inodeIn fs p v ino) lb ≠ 0 →
    FileBlock fs p v (mapOf fs v (inodeIn fs p v ino) lb)

/-- A directory does not notice that an inode is taken. -/
lemma DirIn.takeInode {ino ino' : ℕ} (h : DirIn fs p v ino rs) :
    DirIn fs p (v.takeInode fs ino') ino rs := by
  have hblock : ∀ b, FileBlock fs p v b → FileBlock fs p (v.takeInode fs ino') b := fun _ hb =>
    hb.mono fun _ hused => hused
  exact ⟨h.inode, h.records, fun r hr => hblock _ (h.blocks r hr), fun hx =>
    (h.indirect hx).imp id (hblock _), fun lb hlb => hblock _ (h.mapped lb hlb)⟩

lemma vol_dirWalk (visit : ℕ → ℕ → Bytes → γ → γ ⊕ α) (h : RecordsIn fs p v inode rs) (acc : γ) :
    (volView fs p).wp (dirWalk fs inode visit acc) (fun e v' =>
      e = (match search (recordStep visit) rs acc with
        | .inl _ => .ended
        | .inr a => .found a) ∧ v' = v) v := by
  refine vol_of_returns fun d hd hv => ?_
  have hrs := h d hd (congrArg Vol.data hv)
  exact returns_dirWalk visit (v := ⟨d, v.nodes, v.nodesUsed⟩) hrs acc

/-! ## Inserting an entry -/

/-- There are `n` bytes to spare in the record. -/
def Spare (n : ℕ) (r : RecordAt) : Prop := n ≤ u32sub (deRecLen r.buf r.off) (deUsed r.buf r.off)

instance (n : ℕ) (r : RecordAt) : Decidable (Spare n r) := inferInstanceAs (Decidable (_ ≤ _))

/-- A record of the directory has room for the entry. -/
def HasRoom (rs : List RecordAt) (name : List UInt8) : Prop :=
  ∃ r ∈ rs, Spare (align4 (8 + name.length)) r

instance (rs : List RecordAt) (name : List UInt8) : Decidable (HasRoom rs name) :=
  inferInstanceAs (Decidable (∃ r ∈ rs, _))

/-- The directory has room for the entry, or a block for it can be had. -/
def Accepts (fs : Ext2Fs) (v : Vol) (inode : Bytes) (rs : List RecordAt)
    (name : List UInt8) : Prop :=
  HasRoom rs name ∨
    (usesExtents inode = false ∧ CanGrow fs v inode (iSize inode / fs.blockSize))

/-- The directory has no room, and the last block of the volume goes into its indirect block. -/
def LosesBlock (fs : Ext2Fs) (v : Vol) (inode : Bytes) (rs : List RecordAt) (name : List UInt8) :
    Prop :=
  ¬HasRoom rs name ∧ usesExtents inode = false ∧ Leaks fs v inode (iSize inode / fs.blockSize)

lemma search_insertVisit (rs : List RecordAt) (n : ℕ) :
    search (recordStep fun phys off b (_ : Unit) => insertVisit n phys off b) rs () =
      (rs.find? fun r => Spare n r).elim (.inl ()) .inr :=
  search_eq_find? (Spare n) id rs

/-- What becomes of the volume when an entry is put into a directory: the entry goes into the first
record with room for it or into a block of its own; or the directory cannot grow. -/
inductive InsertOutcome (fs : Ext2Fs) (p : Plan) (v : Vol) (ino : ℕ) (rs : List RecordAt)
    (name : List UInt8) (ino' : ℕ) (ft : UInt8) : Bool → Vol → Prop
  | slot {r : RecordAt} (hr : r ∈ rs) (hroom : Spare (align4 (8 + name.length)) r) :
      InsertOutcome fs p v ino rs name ino' ft true
        (v.write fs r.phys (placeRecord r.buf r.off ino' name ft))
  | grown {b : ℕ} {inode : Bytes} {v₁ : Vol} (hfull : ¬HasRoom rs name)
      (hx : usesExtents (inodeIn fs p v ino) = false) (hb : b ≠ 0)
      (hg : Growth fs p v (inodeIn fs p v ino) (iSize (inodeIn fs p v ino) / fs.blockSize)
        (b, inode) v₁) :
      InsertOutcome fs p v ino rs name ino' ft true
        ((v₁.write fs b (fillRecord (Bytes.put16 Bytes.zeros 4 fs.blockSize)
          0 ino' name ft)).putInode fs p
          ino (setISize inode (iSize inode + fs.blockSize)))
  | extents (hfull : ¬HasRoom rs name) (hx : usesExtents (inodeIn fs p v ino) = true) :
      InsertOutcome fs p v ino rs name ino' ft false v
  | refused {inode : Bytes} {v₁ : Vol} (hfull : ¬HasRoom rs name)
      (hx : usesExtents (inodeIn fs p v ino) = false)
      (hg : Growth fs p v (inodeIn fs p v ino) (iSize (inodeIn fs p v ino) / fs.blockSize)
        (0, inode) v₁) :
      InsertOutcome fs p v ino rs name ino' ft false v₁

/-- The block that a directory gets belongs to a file. -/
lemma Growth.fileBlock {lb b : ℕ} {inode' : Bytes}
    (hg : Growth fs p v inode lb (b, inode') v') (h0 : b ≠ 0)
    (hmapped : ∀ lb, mapOf fs v inode lb ≠ 0 → FileBlock fs p v (mapOf fs v inode lb)) :
    FileBlock fs p v' b := by
  by_cases hhole : mapOf fs v inode lb = 0
  · exact (hg.block h0 hhole).1
  · obtain ⟨-, hmap, -⟩ := hg.outcome.resolve_right fun hout => by
      rcases hout with ⟨hz, -⟩ | ⟨hz, -⟩
      · exact h0 hz
      · exact h0 hz
    have heq := hmap.symm.trans (hg.grown.map _ hhole)
    simp only at heq
    rw [heq]
    exact (hmapped _ hhole).mono hg.grown.used

section Insert

variable {dir ino ino' : ℕ} {ft : UInt8} (hl : Layout fs) (hp : p.Fits fs) (hr : Reserved fs p v)
  (hi : InodeIn fs ino)
  (hind : usesExtents (inodeIn fs p v ino) = false → IndirectOk fs p v (inodeIn fs p v ino))
  (hmapped : usesExtents (inodeIn fs p v ino) = false →
    ∀ lb, mapOf fs v (inodeIn fs p v ino) lb ≠ 0 →
    FileBlock fs p v (mapOf fs v (inodeIn fs p v ino) lb))

include hl hp hr hi hind hmapped

lemma vol_append (hfull : ¬HasRoom rs name) :
    (volView fs p).wp (ext2InsertDirent.append fs name ino' ft ino (inodeIn fs p v ino))
      (InsertOutcome fs p v ino rs name ino' ft) v := by
  unfold ext2InsertDirent.append
  by_cases hx : usesExtents (inodeIn fs p v ino) = true
  · -- the driver does not change files with extents
    have hret : getOrAllocBlock fs (inodeIn fs p v ino)
        (iSize (inodeIn fs p v ino) / fs.blockSize) = pure (0, inodeIn fs p v ino) := if_pos hx
    rw [hret, pure_bind]
    exact View.wp_ite (fun _ => View.wp_pure (.extents hfull hx)) fun h => absurd rfl h
  have hx : usesExtents (inodeIn fs p v ino) = false := by simpa using hx
  refine View.wp_bind (vol_getOrAllocBlock hl hp hr hx (hind hx) _) ?_
  rintro ⟨b, inode'⟩ v₁ hg
  refine View.wp_ite (fun h0 => View.wp_pure ?_) fun h0 => ?_
  · obtain rfl : b = 0 := h0
    exact .refused hfull hx hg
  refine View.wp_bind (vol_writeBlock hl hp (hg.fileBlock h0 (hmapped hx)).plain _) ?_
  rintro _ v₂ ⟨rfl, rfl⟩
  refine View.wp_ite (fun _ => ?_) fun h => absurd rfl h
  refine View.wp_mono (vol_writeInode hl hp hi _) ?_
  rintro _ v₃ ⟨rfl, rfl⟩
  exact .grown hfull hx h0 hg

lemma vol_insert (hnode : (v.nodes dir).inode = ino)
    (hrs : RecordsIn fs p v (inodeIn fs p v ino) rs)
    (hblocks : ∀ r ∈ rs, FileBlock fs p v r.phys) (hname : name.length ≠ 0 ∧ name.length ≤ 255) :
    (volView fs p).wp (ext2InsertDirent fs dir name ino' ft)
      (InsertOutcome fs p v ino rs name ino' ft) v := by
  refine View.wp_ite (fun hbad => by omega) fun _ => ?_
  refine View.wp_get fun s _ hs => ?_
  have hpool : s.nodePool = v.nodes := congrArg Vol.nodes hs
  simp only [hpool, hnode]
  refine View.wp_bind (vol_readInode hl hp hi) ?_
  rintro _ v₁ ⟨rfl, rfl⟩
  refine View.wp_bind (vol_dirWalk _ hrs ()) ?_
  rintro _ v₂ ⟨rfl, rfl⟩
  rw [search_insertVisit]
  cases hfind : rs.find? fun r => Spare (align4 (8 + name.length)) r with
  | none =>
    refine vol_append hl hp hr hi hind hmapped ?_
    rintro ⟨r, hmem, hspare⟩
    exact List.find?_eq_none.mp hfind r hmem (decide_eq_true hspare)
  | some r =>
    have hmem := List.mem_of_find?_eq_some hfind
    have hspare := List.find?_some hfind
    simp only [decide_eq_true_eq] at hspare
    refine View.wp_mono (vol_writeBlock hl hp (hblocks r hmem).plain _) ?_
    rintro _ v₃ ⟨rfl, rfl⟩
    exact .slot hmem hspare

end Insert

/-- What putting an entry into a directory comes to for the bitmaps. -/
structure Insertion (fs : Ext2Fs) (v : Vol) (inode : Bytes) (rs : List RecordAt) (name : List UInt8)
    (ok : Bool) (v' : Vol) : Prop where
  kept : v'.inodeUsed = v.inodeUsed ∧ v'.nodesUsed = v.nodesUsed
  accepts : ok = true ↔ Accepts fs v inode rs name
  failed : ok = false → (v' = v ∧ ¬LosesBlock fs v inode rs name) ∨
    (v'.used ≠ v.used ∧ LosesBlock fs v inode rs name)

lemma InsertOutcome.insertion {ino ino' : ℕ} {ft : UInt8} {ok : Bool}
    (h : InsertOutcome fs p v ino rs name ino' ft ok v') :
    Insertion fs v (inodeIn fs p v ino) rs name ok v' := by
  cases h with
  | slot hmem hroom =>
    exact ⟨⟨rfl, rfl⟩, iff_of_true rfl (.inl ⟨_, hmem, hroom⟩), fun h => by cases h⟩
  | grown hfull hx hb hg =>
    exact ⟨⟨hg.kept.1, hg.kept.2.1⟩, iff_of_true rfl (.inr ⟨hx, hg.grows.mp hb⟩),
      fun h => by cases h⟩
  | extents hfull hx =>
    refine ⟨⟨rfl, rfl⟩, iff_of_false (by simp) ?_, fun _ => .inl ⟨rfl, ?_⟩⟩
    · rintro (hroom | ⟨hno, -⟩)
      · exact hfull hroom
      · rw [hx] at hno
        cases hno
    · rintro ⟨-, hno, -⟩
      rw [hx] at hno
      cases hno
  | refused hfull hx hg =>
    refine ⟨⟨hg.kept.1, hg.kept.2.1⟩, iff_of_false (by simp) fun ha => ?_, fun _ => ?_⟩
    · exact hg.grows.not.mp (not_not.mpr rfl) (ha.resolve_left hfull).2
    · rcases hg.outcome with ⟨hne, -⟩ | ⟨-, hv, hleak⟩ | ⟨-, hused, hleak⟩
      · exact absurd rfl hne
      · exact .inl ⟨hv, fun hloses => hleak hloses.2.2⟩
      · exact .inr ⟨hused, hfull, hx, hleak⟩

lemma vol_insertDirent (hl : Layout fs) (hp : p.Fits fs) (hr : Reserved fs p v) {dir ino ino' : ℕ}
    {ft : UInt8} (hnode : (v.nodes dir).inode = ino) (h : DirIn fs p v ino rs)
    (hname : name.length ≠ 0 ∧ name.length ≤ 255) :
    (volView fs p).wp (ext2InsertDirent fs dir name ino' ft)
      (Insertion fs v (inodeIn fs p v ino) rs name) v :=
  View.wp_mono (vol_insert hl hp hr h.inode h.indirect (fun _ => h.mapped)
    hnode h.records h.blocks hname)
    fun _ _ hout => hout.insertion

/-! ## Creating a file -/

/-- The entries of a directory: the names with the numbers of the inodes. -/
def entriesIn (fs : Ext2Fs) (p : Plan) (v : Vol) (ino : ℕ) : Set (List UInt8 × ℕ) :=
  {e | ∃ rs, Records fs v.data (inodeIn fs p v ino) 0 rs ∧
    ∃ r ∈ rs, deName r.buf r.off = e.1 ∧ deInode r.buf r.off = e.2 ∧ e.2 ≠ 0}

/-- The bitmaps, the counters and the entries of the directories are as before. -/
structure SameRecords (fs : Ext2Fs) (p : Plan) (v v' : Vol) : Prop where
  used : v'.used = v.used
  free : v'.free = v.free
  total : v'.total = v.total
  inodeUsed : v'.inodeUsed = v.inodeUsed
  freeInodes : v'.freeInodes = v.freeInodes
  totalInodes : v'.totalInodes = v.totalInodes
  entries : ∀ ino, entriesIn fs p v' ino = entriesIn fs p v ino

lemma SameRecords.refl (fs : Ext2Fs) (p : Plan) (v : Vol) : SameRecords fs p v v :=
  ⟨rfl, rfl, rfl, rfl, rfl, rfl, fun _ => rfl⟩

/-- `ext2_create` goes as far as taking an inode for a file in the directory `nd`. -/
def Creatable (fs : Ext2Fs) (v : Vol) (nd : Ext2Node) (name : List UInt8) : Prop :=
  nd.fs.writeSupported = true ∧ nd.type.isDirectory = true ∧ name.length ≠ 0 ∧ name.length ≤ 255 ∧
    ∃ ino, AvailableInode fs v ino

/-- There is an inode for the file and room for its entry. -/
def Enters (fs : Ext2Fs) (p : Plan) (v : Vol) (nd : Ext2Node) (rs : List RecordAt)
    (name : List UInt8) : Prop :=
  Creatable fs v nd name ∧ Accepts fs v (inodeIn fs p v nd.inode) rs name

/-- There is an inode for the file, and a block is lost in the search of room for its entry. -/
def Loses (fs : Ext2Fs) (p : Plan) (v : Vol) (nd : Ext2Node) (rs : List RecordAt)
    (name : List UInt8) : Prop :=
  Creatable fs v nd name ∧ LosesBlock fs v (inodeIn fs p v nd.inode) rs name

/-- What a call of `ext2_create` comes to. -/
structure Creation (fs : Ext2Fs) (p : Plan) (v : Vol) (nd : Ext2Node) (rs : List RecordAt)
    (name : List UInt8) (r : Option ℕ) (v' : Vol) : Prop where
  returned : r ≠ none ↔ Enters fs p v nd rs name ∧ v.nodesUsed < maxExt2Nodes
  recorded : SameRecords fs p v v' ↔ ¬(Enters fs p v nd rs name ∨ Loses fs p v nd rs name)

/-- A call that is refused. -/
lemma Creation.refused {nd : Ext2Node} (h : ¬Creatable fs v nd name) :
    Creation fs p v nd rs name none v := by
  refine ⟨iff_of_false (fun h => h rfl) fun hent =>
    h hent.1.1, iff_of_true (SameRecords.refl fs p v) ?_⟩
  rintro (hent | hloses)
  · exact h hent.1
  · exact h hloses.1

lemma vol_of_boundedInodes {m : Program Ext2State α} {R : α → Vol → Prop}
    (h : BoundedInodes v → (volView fs p).wp m R v) : (volView fs p).wp m R v := by
  rintro s hs rfl
  exact h boundedInodes_volOn s hs rfl

/-- `alloc_node` fails exactly when the pool is used up, and leaves the drive. -/
lemma vol_allocNode (nd : Ext2Node) :
    (volView fs p).wp (allocNode nd) (fun r v' => (r ≠ none ↔ v.nodesUsed < maxExt2Nodes) ∧
      v'.inodeUsed = v.inodeUsed ∧ v'.data = v.data) v := by
  refine vol_of_raw fun d hd hv => View.wp_mono (wp_allocNode nd) ?_
  intro r w hw
  have hold : (volOn fs p d v.nodes v.nodesUsed).inodeUsed = v.inodeUsed :=
    congrArg Vol.inodeUsed hv
  have hdata : (volOn fs p d v.nodes v.nodesUsed).data = v.data := congrArg Vol.data hv
  have hkept : ∀ nodes n, (volOn fs p d nodes n).inodeUsed = v.inodeUsed ∧
      (volOn fs p d nodes n).data = v.data := fun _ _ => ⟨hold, hdata⟩
  split_ifs at hw with hfull
  · obtain ⟨rfl, rfl⟩ := hw
    exact ⟨hd, iff_of_false (fun h => h rfl) (Nat.not_lt.mpr hfull), hkept _ _⟩
  · obtain ⟨rfl, rfl⟩ := hw
    exact ⟨hd, iff_of_true (by simp) (Nat.lt_of_not_le hfull), hkept _ _⟩

lemma vol_finishNewFileNode (hl : Layout fs) (hp : p.Fits fs) {dir ino : ℕ} (hi : InodeIn fs ino) :
    (volView fs p).wp (finishNewFileNode fs dir ino name) (fun r v' =>
      (r ≠ none ↔ v.nodesUsed < maxExt2Nodes) ∧ v'.inodeUsed = v.inodeUsed ∧
        v'.data = (v.putInode fs p ino newFileInode).data) v := by
  refine View.wp_bind (vol_writeInode hl hp hi _) ?_
  rintro _ v₁ ⟨rfl, rfl⟩
  exact View.wp_ite (fun _ => vol_allocNode _) fun h => absurd rfl h

lemma vol_create (hl : Layout fs) (hp : p.Fits fs) (hr : Reserved fs p v) {dir : ℕ}
    (hfs : (v.nodes dir).fs = fs) (h : DirIn fs p v (v.nodes dir).inode rs) :
    (volView fs p).wp (ext2Create dir name) (Creation fs p v (v.nodes dir) rs name) v := by
  refine vol_of_boundedInodes fun hb => View.wp_get fun s _ hs => ?_
  have hpool : s.nodePool = v.nodes := congrArg Vol.nodes hs
  rw [hpool]
  generalize hnd : v.nodes dir = nd at h hfs ⊢
  extract_lets nd' fs'
  have hnd' : nd' = nd := rfl
  have hfs' : fs' = fs := hfs
  rw [hfs', hnd']
  refine View.wp_ite (fun h1 => View.wp_pure (Creation.refused fun hc => ?_)) fun h1 => ?_
  · rw [← hfs, hc.1] at h1
    cases h1
  refine View.wp_ite (fun h2 => View.wp_pure (Creation.refused fun hc => ?_)) fun h2 => ?_
  · rw [hc.2.1] at h2
    cases h2
  refine View.wp_ite (fun h3 => View.wp_pure (Creation.refused fun hc => ?_)) fun h3 => ?_
  · obtain ⟨-, -, hpos, hle, -⟩ := hc
    omega
  refine View.wp_bind (vol_allocInode hl hp) ?_
  rintro ino v₁ (⟨rfl, rfl, hnone⟩ | ⟨hav, rfl⟩)
  · refine View.wp_ite (fun _ => View.wp_pure (Creation.refused fun hc => ?_)) fun h => absurd rfl h
    obtain ⟨-, -, -, -, ino, hav⟩ := hc
    exact hnone ino hav
  have hc : Creatable fs v nd name :=
    ⟨by simpa [hfs] using h1, by simpa using h2, by omega, by omega, ino, hav⟩
  refine View.wp_ite (fun h0 => absurd hav.1.1 (by omega)) fun _ => ?_
  have hdir : DirIn fs p (v.takeInode fs ino) nd.inode rs := h.takeInode
  have hnode : ((v.takeInode fs ino).nodes dir).inode = nd.inode := congrArg Ext2Node.inode hnd
  have hr' : Reserved fs p (v.takeInode fs ino) := hr.mono fun _ hu => hu
  refine View.wp_bind (vol_insertDirent hl hp hr' hnode hdir ⟨by omega, by omega⟩) ?_
  rintro ok v₂ ⟨⟨hkept, hnodes⟩, haccepts, hfailed⟩
  have haccepts' : ok = true ↔ Accepts fs v (inodeIn fs p v nd.inode) rs name := haccepts
  refine View.wp_ite (fun hok => ?_) fun hok => ?_
  · -- the entry is there, whether or not there is a node for it
    refine View.wp_mono (vol_finishNewFileNode hl hp hav.1) ?_
    rintro r v₃ ⟨hret, hinodes, -⟩
    have hent : Enters fs p v nd rs name := ⟨hc, haccepts'.mp hok⟩
    rw [hnodes] at hret
    refine ⟨hret.trans (iff_and_self.mpr fun _ => hent), iff_of_false (fun hsame => ?_) fun hno =>
      hno (.inl hent)⟩
    have hused := congrFun hsame.inodeUsed ino
    rw [hinodes, hkept, hav.2.1] at hused
    exact absurd (Function.update_self ino true v.inodeUsed) (by
      intro h
      exact Bool.noConfusion (h.symm.trans hused))
  · refine View.wp_bind (vol_freeInode hl hp hav.1) ?_
    rintro _ v₃ ⟨rfl, rfl⟩
    have hno : ¬Enters fs p v nd rs name := fun hent => hok (haccepts'.mpr hent.2)
    refine View.wp_pure ⟨iff_of_false (fun h => h rfl) fun h => hno h.1, ?_⟩
    rcases hfailed (Bool.eq_false_of_not_eq_true hok) with ⟨rfl, hloses⟩ | ⟨hused, hloses⟩
    · rw [giveInode_takeInode hb hav.2.1]
      refine iff_of_true (SameRecords.refl fs p v) ?_
      rintro (hent | hl)
      · exact hno hent
      · exact hloses hl.2
    · exact iff_of_false (fun hsame => hused hsame.used) fun h => h (.inr ⟨hc, hloses⟩)

end Ext2

end CoolFrost

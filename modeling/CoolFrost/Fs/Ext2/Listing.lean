import CoolFrost.Fs.Ext2.Creation
import CoolFrost.Fs.Ext2.Records

/-!
# ext2: directories as lists of entries

A directory whose blocks are covered by records is the list of the entries in them.  This module
says what the driver's walk finds in such a directory, and what becomes of the list when one of the
blocks is written or a block is appended.
-/

namespace CoolFrost

open Program

namespace Ext2

/-- The blocks of a directory in their order, each with the offsets of its records. -/
abbrev DirBlocks := List (ℕ × List ℕ)

variable {fs : Ext2Fs} {p : Plan} {v v' : Vol} {d inode buf : Bytes} {ino b off phys : ℕ}
  {offs offs' : List ℕ} {L L₁ L₂ : DirBlocks} {name : List UInt8}

/-- The records of a directory with the blocks `L`. -/
def recordsOf (fs : Ext2Fs) (v : Vol) (L : DirBlocks) : List RecordAt :=
  L.flatMap fun x => x.2.map fun off => ⟨x.1, off, blockIn fs v x.1⟩

/-- The entries of a directory with the blocks `L`, each with its block and its offset there. -/
def entriesOf (fs : Ext2Fs) (v : Vol) (L : DirBlocks) : List (ℕ × ℕ × LiveEntry) :=
  L.flatMap fun x => (entriesAt (blockIn fs v x.1) x.2).map fun e => (x.1, e)

/-- The blocks of the directory are those of `L`, and each is covered by the records there. -/
structure Listed (fs : Ext2Fs) (p : Plan) (v : Vol) (ino : ℕ) (L : DirBlocks) : Prop where
  size : iSize (inodeIn fs p v ino) = L.length * fs.blockSize
  block : ∀ i (hi : i < L.length), getBlockOn fs v.data (inodeIn fs p v ino) i = L[i].1
  covered : ∀ x ∈ L, x.1 ≠ 0 ∧ Covered fs.blockSize (blockIn fs v x.1) x.2

/-- The blocks of a file that grows: each belongs to it once, and none of them is its indirect
block. -/
structure MapOk (fs : Ext2Fs) (p : Plan) (v : Vol) (inode : Bytes) : Prop where
  indirect : IndirectOk fs p v inode
  file : ∀ lb, mapOf fs v inode lb ≠ 0 → FileBlock fs p v (mapOf fs v inode lb)
  apart : ∀ lb, mapOf fs v inode lb ≠ 0 → mapOf fs v inode lb ≠ iBlock inode 12
  inj : ∀ lb lb', mapOf fs v inode lb ≠ 0 → mapOf fs v inode lb' = mapOf fs v inode lb → lb' = lb

/-- A directory of a volume that is in order. -/
structure DirOn (fs : Ext2Fs) (p : Plan) (v : Vol) (ino : ℕ) (L : DirBlocks) : Prop
    extends Listed fs p v ino L where
  inode : InodeIn fs ino
  isDir : isDirInode (inodeIn fs p v ino) = true
  file : ∀ x ∈ L, FileBlock fs p v x.1
  nodup : (L.map Prod.fst).Nodup
  /-- What is read to find its blocks is none of them. -/
  path : ∀ i < L.length, ∀ b ∈ mapPath fs v.data (inodeIn fs p v ino) i,
    FileBlock fs p v b ∧ b ∉ L.map Prod.fst
  map : usesExtents (inodeIn fs p v ino) = false → MapOk fs p v (inodeIn fs p v ino)

lemma entriesOf_append : entriesOf fs v (L₁ ++ L₂) = entriesOf fs v L₁ ++ entriesOf fs v L₂ :=
  List.flatMap_append

lemma entriesOf_cons (x : ℕ × List ℕ) : entriesOf fs v (x :: L) =
    ((entriesAt (blockIn fs v x.1) x.2).map fun e => (x.1, e)) ++ entriesOf fs v L :=
  List.flatMap_cons

lemma mem_recordsOf {r : RecordAt} : r ∈ recordsOf fs v L ↔
    ∃ x ∈ L, ∃ off ∈ x.2, (⟨x.1, off, blockIn fs v x.1⟩ : RecordAt) = r := by
  simp [recordsOf]

/-- The entries of a directory are in its records. -/
lemma mem_entriesOf {e : LiveEntry} : (phys, off, e) ∈ entriesOf fs v L ↔
    ∃ offs, (phys, offs) ∈ L ∧ off ∈ offs ∧ deInode (blockIn fs v phys) off ≠ 0 ∧
      entryAt (blockIn fs v phys) off = e := by
  simp only [entriesOf, entriesAt, List.mem_flatMap, List.mem_map, List.mem_filter, Prod.mk.injEq,
    decide_eq_true_eq, Prod.exists]
  constructor
  · rintro ⟨x, offs, hx, o, e', ⟨o', ⟨ho', hlive⟩, rfl, rfl⟩, rfl, rfl, rfl⟩
    exact ⟨offs, hx, ho', hlive, rfl⟩
  · rintro ⟨offs, hx, ho, hlive, rfl⟩
    exact ⟨phys, offs, hx, off, _, ⟨off, ⟨ho, hlive⟩, rfl, rfl⟩, rfl, rfl, rfl⟩

/-! ## The walk over the records -/

/-- The records of one block, in front of those of the blocks behind it. -/
lemma records_block {i o : ℕ} {rest : List RecordAt} (hbs : 0 < fs.blockSize)
    (hphys : getBlockOn fs d inode i = phys) (hne : phys ≠ 0)
    (hend : (i + 1) * fs.blockSize ≤ iSize inode)
    (htiles : Tiles id (deRecLen (blockOn fs d phys)) o offs fs.blockSize)
    (hproper : ∀ x ∈ offs, Proper (blockOn fs d phys) x)
    (hrest : Records fs d inode ((i + 1) * fs.blockSize) rest) :
    Records fs d inode (i * fs.blockSize + o)
      (offs.map (fun off => ⟨phys, off, blockOn fs d phys⟩) ++ rest) := by
  rw [Nat.succ_mul] at hend hrest
  induction offs generalizing o with
  | nil =>
    rw [Tiles.nil_iff] at htiles
    rw [htiles]
    exact hrest
  | cons x offs ih =>
    obtain ⟨rfl, hback⟩ := htiles
    simp only [id_eq] at hback ⊢
    have hx := hproper x List.mem_cons_self
    have hlen := hx.le
    have hle := hback.le
    have hdiv : (i * fs.blockSize + x) / fs.blockSize = i := by
      rw [Nat.add_comm, Nat.add_mul_div_right _ _ hbs, Nat.div_eq_of_lt (by omega), Nat.zero_add]
    have hmod : (i * fs.blockSize + x) % fs.blockSize = x := by
      rw [Nat.add_comm, Nat.add_mul_mod_self_right, Nat.mod_eq_of_lt (by omega)]
    have htail := ih hback fun y hy => hproper y (List.mem_cons_of_mem x hy)
    rw [← Nat.add_assoc] at htail
    have hrec := @Records.record fs d inode (i * fs.blockSize + x) phys _ (by omega)
      (by rw [hdiv]; exact hphys) hne (by rw [hmod]; omega) (by rw [hmod]; omega)
      (by rw [hmod]; exact htail)
    rw [hmod] at hrec
    exact hrec

/-- The records of a directory, one block after the other. -/
lemma records_of_covered (hbs : 0 < fs.blockSize)
    (hsize : iSize inode = L.length * fs.blockSize)
    (hblock : ∀ i (hi : i < L.length), getBlockOn fs d inode i = L[i].1)
    (hcov : ∀ x ∈ L, x.1 ≠ 0 ∧ Covered fs.blockSize (blockOn fs d x.1) x.2) :
    Records fs d inode 0 (L.flatMap fun x => x.2.map fun off => ⟨x.1, off, blockOn fs d x.1⟩) := by
  suffices key : ∀ L₁ L₂ : DirBlocks, L = L₁ ++ L₂ → Records fs d inode (L₁.length * fs.blockSize)
      (L₂.flatMap fun x => x.2.map fun off => ⟨x.1, off, blockOn fs d x.1⟩) by
    simpa using key [] L rfl
  intro L₁ L₂ hL
  induction L₂ generalizing L₁ with
  | nil =>
    rw [List.append_nil] at hL
    exact Records.done (by rw [hsize, hL])
  | cons x L₂ ih =>
    have htail := ih (L₁ ++ [x]) (by rw [hL, List.append_assoc]; rfl)
    rw [List.length_append, List.length_singleton] at htail
    have hlen : L.length = L₁.length + (L₂.length + 1) := by rw [hL, List.length_append]; rfl
    have hlt : L₁.length < L.length := by omega
    have hx : L[L₁.length] = x := by simp [hL]
    obtain ⟨hne, hcx⟩ := hcov x (hL ▸ List.mem_append_right _ List.mem_cons_self)
    have hend : (L₁.length + 1) * fs.blockSize ≤ iSize inode := by
      rw [hsize]
      exact Nat.mul_le_mul_right _ hlt
    have hphys : getBlockOn fs d inode L₁.length = x.1 := by rw [hblock _ hlt, hx]
    have hrec := records_block hbs hphys hne hend hcx.tiles hcx.proper htail
    rw [Nat.add_zero] at hrec
    exact hrec

lemma blockOn_data (hl : Layout fs) (b : ℕ) : blockOn fs v.data b = blockIn fs v b :=
  blockOn_eq hl v.data b

lemma Listed.records (hl : Layout fs) (h : Listed fs p v ino L) :
    Records fs v.data (inodeIn fs p v ino) 0 (recordsOf fs v L) := by
  have hblk := @blockOn_data fs v hl
  have hrec := @records_of_covered fs v.data (inodeIn fs p v ino) L hl.blockSize_pos h.size h.block
    fun x hx => by rw [hblk]; exact h.covered x hx
  simp only [hblk] at hrec
  exact hrec

/-- The entries of a directory are those of its records. -/
lemma entriesOf_eq : entriesOf fs v L = ((recordsOf fs v L).filter fun r =>
    deInode r.buf r.off ≠ 0).map
    fun r => (r.phys, r.off, entryAt r.buf r.off) := by
  unfold entriesOf recordsOf entriesAt
  rw [List.filter_flatMap, List.map_flatMap]
  refine List.flatMap_congr fun x _ => ?_
  rw [List.filter_map, List.map_map, List.map_map]
  rfl

/-- The entries of a directory are determined. -/
lemma Listed.entriesOf_unique {L' : DirBlocks} (hl : Layout fs) (h : Listed fs p v ino L)
    (h' : Listed fs p v ino L') : entriesOf fs v L = entriesOf fs v L' := by
  rw [entriesOf_eq, entriesOf_eq, (h.records hl).unique (h'.records hl)]

namespace DirOn

lemma mem_path (h : DirOn fs p v ino L) {i : ℕ} (hi : i < L.length)
    (hb : b ∈ mapPath fs v.data (inodeIn fs p v ino) i) : Plain fs p b :=
  (h.path i hi b hb).1.plain

/-- The records are the same on every drive that holds the volume. -/
lemma recordsIn (hl : Layout fs) (h : DirOn fs p v ino L) :
    RecordsIn fs p v (inodeIn fs p v ino) (recordsOf fs v L) := by
  intro d hd hdata
  have hblk : ∀ b, Plain fs p b → blockOn fs d b = blockIn fs v b := fun b hb => by
    rw [← blockIn_eq hl hb]
    exact blockIn_congr hdata b
  have hrec := @records_of_covered fs d (inodeIn fs p v ino) L hl.blockSize_pos h.size
    (fun i hi => by
      refine (getBlockOn_congr fun b hb => ?_).trans (h.block i hi)
      rw [hblk b (h.mem_path hi hb), blockOn_data hl])
    fun x hx => by
      rw [hblk _ (h.file x hx).plain]
      exact h.covered x hx
  have heq : recordsOf fs v L =
      L.flatMap fun x => x.2.map fun off => (⟨x.1, off, blockOn fs d x.1⟩ : RecordAt) := by
    unfold recordsOf
    exact List.flatMap_congr fun x hx => by rw [hblk _ (h.file x hx).plain]
  rw [heq]
  exact hrec

lemma fileBlock_phys (h : DirOn fs p v ino L) :
    ∀ r ∈ recordsOf fs v L, FileBlock fs p v r.phys := by
  intro r hr
  obtain ⟨x, hx, off, -, rfl⟩ := mem_recordsOf.mp hr
  exact h.file x hx

end DirOn

/-! ## Names -/

/-- A name that is looked up with success is that of an entry. -/
lemma lookupRecord_some {r : RecordAt} (h : lookupRecord (recordsOf fs v L) name = some r) :
    (r.phys, r.off, entryAt r.buf r.off) ∈ entriesOf fs v L ∧ r.buf = blockIn fs v r.phys ∧
      deInode r.buf r.off ≠ 0 ∧ (name.length ≤ 255 → deName r.buf r.off = name) := by
  have hmem := List.mem_of_find?_eq_some h
  have hmatch := List.find?_some h
  obtain ⟨x, hx, off, hoff, rfl⟩ := mem_recordsOf.mp hmem
  have hlive : deInode (blockIn fs v x.1) off ≠ 0 := by
    unfold nameMatch at hmatch
    rw [decide_eq_true_iff] at hmatch
    exact hmatch.1
  exact ⟨mem_entriesOf.mpr ⟨x.2, hx, hoff, hlive, rfl⟩, rfl, hlive, fun hname =>
    ((nameMatch_iff (by omega)).mp hmatch).2⟩

/-- A name that an entry has is looked up with success. -/
lemma exists_lookupRecord (hname : name.length ≤ 255) {e : LiveEntry}
    (h : (phys, off, e) ∈ entriesOf fs v L) (he : e.name = name) :
    ∃ r, lookupRecord (recordsOf fs v L) name = some r := by
  obtain ⟨offs, hx, hoff, hlive, rfl⟩ := mem_entriesOf.mp h
  rw [← Option.isSome_iff_exists, lookupRecord, List.find?_isSome]
  exact ⟨_, mem_recordsOf.mpr ⟨_, hx, off, hoff, rfl⟩, (nameMatch_iff (by omega)).mpr ⟨hlive, he⟩⟩

end Ext2

end CoolFrost

import CoolFrost.Lib.Search
import CoolFrost.Fs.Ext2.Blocks

/-!
# ext2: what a walk over a directory finds

The records of a well-formed directory lie one behind the other up to its end, each in one block.
The driver's walk is a search of the list of these records.
-/

namespace CoolFrost

open Program

namespace Ext2

variable {fs : Ext2Fs} {v : Image} {d inode : Bytes} {α γ : Type}

/-- The records of a directory from the position `pos` on, with their blocks. -/
inductive Records (fs : Ext2Fs) (d inode : Bytes) : ℕ → List RecordAt → Prop
  | done {pos : ℕ} (h : pos = iSize inode) : Records fs d inode pos []
  | record {pos phys : ℕ} {rs : List RecordAt} (hpos : pos < iSize inode)
      (hphys : getBlockOn fs d inode (pos / fs.blockSize) = phys) (hne : phys ≠ 0)
      (hlen : deRecLen (blockOn fs d phys) (pos % fs.blockSize) ≠ 0)
      (hfit : pos + deRecLen (blockOn fs d phys) (pos % fs.blockSize) ≤ iSize inode)
      (hrest : Records fs d inode (pos + deRecLen (blockOn fs d phys) (pos % fs.blockSize)) rs) :
      Records fs d inode pos (⟨phys, pos % fs.blockSize, blockOn fs d phys⟩ :: rs)

/-- The records of a directory are determined. -/
lemma Records.unique {pos : ℕ} {rs rs' : List RecordAt} (h : Records fs d inode pos rs)
    (h' : Records fs d inode pos rs') : rs = rs' := by
  induction h generalizing rs' with
  | done hpos =>
    cases h' with
    | done => rfl
    | record hlt => omega
  | record hlt hphys _ _ _ _ ih =>
    cases h' with
    | done hpos => omega
    | record _ hphys' _ _ _ hrest' =>
      subst hphys hphys'
      rw [ih hrest']

/-- A directory has fewer records than bytes. -/
lemma Records.length_le {pos : ℕ} {rs : List RecordAt} (h : Records fs d inode pos rs) :
    pos + rs.length ≤ iSize inode := by
  induction h with
  | done h => exact le_of_eq h
  | record _ _ _ hlen _ _ ih =>
    rw [List.length_cons]
    omega

/-! ## The walk -/

/-- The block at hand is one of the directory. -/
def AtHand (fs : Ext2Fs) (d inode : Bytes) (cur : Option (ℕ × ℕ × Bytes)) : Prop :=
  ∀ logical phys buf, cur = some (logical, phys, buf) → phys ≠ 0 ∧
    getBlockOn fs d inode logical = phys ∧ blockOn fs d phys = buf

lemma returns_loadDirBlock {blkLog phys : ℕ} {cur : Option (ℕ × ℕ × Bytes)}
    (hcur : AtHand fs v.disk inode cur) (hphys : getBlockOn fs v.disk inode blkLog = phys)
    (hne : phys ≠ 0) :
    Returns fs (loadDirBlock fs inode blkLog cur) v (some (phys, blockOn fs v.disk phys)) := by
  have hload : Returns fs (loadDirBlock.load fs inode blkLog) v
      (some (phys, blockOn fs v.disk phys)) := by
    refine (returns_getBlock inode blkLog).bind ?_
    rw [hphys, if_neg hne]
    exact (returns_readBlock phys).bind (Returns.ret _)
  cases cur with
  | none => exact hload
  | some p =>
    obtain ⟨logical, phys', buf⟩ := p
    obtain ⟨-, hlogical, hbuf⟩ := hcur _ _ _ rfl
    refine View.wp_ite (fun h => ?_) fun _ => hload
    rw [← hbuf, ← hlogical, h, hphys]
    exact Returns.ret _

/-- What the walk does at a record. -/
def recordStep (visit : ℕ → ℕ → Bytes → γ → γ ⊕ α) (r : RecordAt) : γ → γ ⊕ α :=
  visit r.phys r.off r.buf

/-- The walk is a search of the records. -/
lemma returns_dirWalk (visit : ℕ → ℕ → Bytes → γ → γ ⊕ α) {rs : List RecordAt}
    (h : Records fs v.disk inode 0 rs) (acc : γ) :
    Returns fs (dirWalk fs inode visit acc) v
      (match search (recordStep visit) rs acc with
        | .inl _ => .ended
        | .inr a => .found a) := by
  -- the loop is at the position of the first of the records `rs'` that are left
  refine View.wp_iter_rounds (fun n p v' => v' = v ∧ AtHand fs v.disk inode p.2.1 ∧
      ∃ rs', rs'.length = n ∧ Records fs v.disk inode p.1 rs' ∧
        search (recordStep visit) rs acc = search (recordStep visit) rs' p.2.2) ?_
    ⟨rfl, fun _ _ _ hc => by simp at hc, rs, rfl, h, rfl⟩ ?_
  · rintro n ⟨pos, cur, acc'⟩ v ⟨rfl, hcur, rs', rfl, hrs, hrest⟩
    simp only at hrs hrest
    rw [hrest]
    cases hrs with
    | done hpos =>
      refine View.wp_ite (fun hlt => absurd hlt (by omega)) fun _ => ?_
      exact View.wp_pure ⟨rfl, rfl⟩
    | @record _ phys rs' hpos hphys hne hlen hfit htail =>
      refine View.wp_ite (fun _ => ?_) fun hge => absurd hpos hge
      refine (returns_loadDirBlock hcur hphys hne).bind ?_
      simp only
      refine View.wp_ite (fun hzero => absurd hzero hlen) fun _ => ?_
      rw [search, recordStep]
      cases visit phys (pos % fs.blockSize) (blockOn fs v.disk phys) acc' with
      | inr a => exact View.wp_pure ⟨rfl, rfl⟩
      | inl acc'' =>
        have hsize : iSize inode < 2 ^ 32 := Bytes.le32_lt inode 4
        have hnext : u32 (pos + deRecLen (blockOn fs v.disk phys) (pos % fs.blockSize)) =
            pos + deRecLen (blockOn fs v.disk phys) (pos % fs.blockSize) :=
          Nat.mod_eq_of_lt (by omega)
        refine View.wp_pure ⟨rs'.length, Nat.lt_succ_self _, rfl, ?_, rs', rfl, ?_, rfl⟩
        · rintro _ _ _ ⟨⟩
          exact ⟨hne, hphys, rfl⟩
        · simp only [hnext]
          exact htail
  · have hlen := h.length_le
    have hsize : iSize inode < 2 ^ 32 := Bytes.le32_lt inode 4
    unfold loopFuel
    omega

/-! ## Looking a name up -/

/-- A name that is short enough for its length to be stored matches its entries. -/
lemma nameMatch_iff {b : Bytes} {off : ℕ} {name : List UInt8} (hname : name.length < 256) :
    nameMatch b off name = true ↔ deInode b off ≠ 0 ∧ deName b off = name := by
  rw [nameMatch, decide_eq_true_iff, Nat.mod_eq_of_lt hname]
  constructor
  · rintro ⟨hino, hlen, heq⟩
    refine ⟨hino, ?_⟩
    rw [deName, hlen]
    exact heq
  · rintro ⟨hino, rfl⟩
    have hlen : (deName b off).length = deNameLen b off := Bytes.length_slice _ _ _
    refine ⟨hino, hlen.symm, ?_⟩
    rw [hlen]
    rfl

/-- What looking up a name in a directory with the records `rs` finds. -/
def lookupRecord (rs : List RecordAt) (name : List UInt8) : Option RecordAt :=
  rs.find? fun r => nameMatch r.buf r.off name

lemma search_findVisit (rs : List RecordAt) (name : List UInt8) :
    search (recordStep fun phys off b (_ : Unit) => findVisit name phys off b) rs () =
      match lookupRecord rs name with
      | none => .inl ()
      | some r => .inr r := by
  have h := search_eq_find? (fun r : RecordAt => nameMatch r.buf r.off name = true) id rs
  simp only [Bool.decide_eq_true] at h
  refine Eq.trans h ?_
  rw [lookupRecord]
  cases rs.find? fun r => nameMatch r.buf r.off name <;> rfl

/-- The node that is made of a record of the directory `node`. -/
def nodeOfRecord (fs : Ext2Fs) (d : Bytes) (node : ℕ) (name : List UInt8)
    (r : RecordAt) : Ext2Node where
  name := name.take maxNameLen
  type := if isDirInode (inodeOn fs d (deInode r.buf r.off)) then .directory else .file
  size := iSize (inodeOn fs d (deInode r.buf r.off))
  inode := deInode r.buf r.off
  parent := some node
  fs := fs

/-- `alloc_node` fails exactly when the pool is used up. -/
lemma wp_allocNode (nd : Ext2Node) :
    (ext2View fs).wp (allocNode nd) (fun r v' =>
      if maxExt2Nodes ≤ v.used then r = none ∧ v' = v
      else r = some v.used ∧
        v' = { v with nodes := Function.update v.nodes v.used nd, used := v.used + 1 }) v := by
  refine View.wp_get fun s _ hv => ?_
  have hused : s.nodePoolUsed = v.used := congrArg Image.used hv
  rw [hused]
  refine View.wp_ite (fun h => View.wp_pure ?_) (fun h => ?_)
  · rw [if_pos h]
    exact ⟨rfl, rfl⟩
  · simp only [if_neg h]
    refine View.wp_bind (P := fun _ v' => v' = { v with
        nodes := Function.update v.nodes v.used nd, used := v.used + 1 }) ?_ ?_
    · refine View.wp_modify fun t ht htv => ⟨ht, ?_⟩
      subst htv
      rfl
    · rintro _ _ rfl
      exact View.wp_pure ⟨rfl, rfl⟩

/-- `ext2_finddir` makes a node of what is found, if there is one left. -/
lemma wp_finddir {node ino : ℕ} {rs : List RecordAt} (hfs : (v.nodes node).fs = fs)
    (hino : (v.nodes node).inode = ino) (h : Records fs v.disk (inodeOn fs v.disk ino) 0 rs)
    (name : List UInt8) :
    (ext2View fs).wp (ext2Finddir node name) (fun r v' =>
      match lookupRecord rs name with
      | none => r = none ∧ v' = v
      | some e =>
        if maxExt2Nodes ≤ v.used then r = none ∧ v' = v
        else r = some v.used ∧ v' = { v with
          nodes := Function.update v.nodes v.used (nodeOfRecord fs v.disk node name e)
          used := v.used + 1 }) v := by
  refine View.wp_get fun s _ hs => ?_
  have hnodes : s.nodePool = v.nodes := congrArg Image.nodes hs
  simp only [hnodes, hfs, hino]
  refine (returns_readInode ino).bind ?_
  refine (returns_dirWalk _ h ()).bind ?_
  rw [search_findVisit]
  cases lookupRecord rs name with
  | none => exact View.wp_pure ⟨rfl, rfl⟩
  | some e =>
    refine (returns_readInode _).bind ?_
    exact wp_allocNode _

/-- `ext2_readdir`, by the inode number of the directory. -/
def readdirAt (fs : Ext2Fs) (ino index : ℕ) : Program Ext2State (Option Dirent) := do
  match ← readInode fs ino with
  | none => return none
  | some inode =>
    match ← dirWalk fs inode (fun _ off b c => readdirVisit index off b c) 0 with
    | .found (name, type, ino) =>
      match ← readInode fs ino with
      | none => return some ⟨name, 0, type⟩
      | some child => return some ⟨name, iSize child, type⟩
    | .ended => return none
    | .badBlock => return none
    | .badRecord => return none

lemma ext2Readdir_eq (node index : ℕ) : ext2Readdir node index = (do
    let s ← get
    readdirAt (s.nodePool node).fs (s.nodePool node).inode index) := rfl

end Ext2

end CoolFrost

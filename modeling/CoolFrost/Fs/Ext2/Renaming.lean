import CoolFrost.Fs.Ext2.OneDir

/-!
# ext2: renaming files

`ext2_rename` rewrites the name in its record when the directory stays the same and the new name
fits.  Otherwise it puts a new entry into the new directory first and clears the old one then, which
it reads again for it: the new entry may have gone into the same block, or into the slack of the old
entry itself.
-/

namespace CoolFrost

open Program

namespace Ext2

variable {fs : Ext2Fs} {p : Plan} {v v' : Vol} {ino ino' D E i off phys : ℕ} {L LD LE : DirBlocks}
  {a b name : List UInt8} {e : LiveEntry} {r : RecordAt} {S I : Set ℕ}

/-! ## The call -/

/-- What a call of `ext2_rename` comes to for the volume; `i` is the inode that the old name leads
to. -/
inductive RenameOutcome (fs : Ext2Fs) (p : Plan) (v : Vol) (D E : ℕ) (LD LE : DirBlocks)
    (a b : List UInt8) : ℤ → Vol → Prop
  | refused {rc : ℤ} (hrc : rc < 0) : RenameOutcome fs p v D E LD LE a b rc v
  | inPlace {r : RecordAt} (hr : lookupRecord (recordsOf fs v LD) a = some r) (hsame : D = E)
      (hfit : align4 (8 + b.length) ≤ deRecLen r.buf r.off) (hb : b.length ≤ 255) :
      RenameOutcome fs p v D E LD LE a b 0 (v.write fs r.phys (renameRecord r.buf r.off b))
  | failed {r : RecordAt} {v₁ : Vol} (hr : lookupRecord (recordsOf fs v LD) a = some r)
      (hout : InsertOutcome fs p v E (recordsOf fs v LE) b (deInode r.buf r.off)
        (deFileType r.buf r.off) false v₁) :
      RenameOutcome fs p v D E LD LE a b (-7) v₁
  | moved {r : RecordAt} {v₁ : Vol} (hr : lookupRecord (recordsOf fs v LD) a = some r)
      (hb : b.length ≤ 255)
      (hout : InsertOutcome fs p v E (recordsOf fs v LE) b (deInode r.buf r.off)
        (deFileType r.buf r.off) true v₁) :
      RenameOutcome fs p v D E LD LE a b 0
        (v₁.write fs r.phys (Bytes.put32 (blockIn fs v₁ r.phys) r.off 0))

lemma vol_insert_dirOn (hl : Layout fs) (hp : p.Fits fs) (hr : Reserved fs p v)
    {dir : ℕ} {ft : UInt8} (hnode : (v.nodes dir).inode = ino) (h : DirOn fs p v ino L)
    (hname : name.length ≠ 0 ∧ name.length ≤ 255) :
    (volView fs p).wp (ext2InsertDirent fs dir name ino' ft)
      (InsertOutcome fs p v ino (recordsOf fs v L) name ino' ft) v :=
  vol_insert hl hp hr h.inode (fun hx => (h.map hx).indirect) (fun hx => (h.map hx).file) hnode
    (h.recordsIn hl) h.fileBlock_phys hname

lemma vol_rename (hl : Layout fs) (hp : p.Fits fs) (hr : Reserved fs p v) {oldDir newDir : ℕ}
    (hfs : (v.nodes oldDir).fs = fs) (hD : DirOn fs p v (v.nodes oldDir).inode LD)
    (hE : DirOn fs p v (v.nodes newDir).inode LE)
    (htarget : ∀ r, lookupRecord (recordsOf fs v LD) a = some r →
      InodeIn fs (deInode r.buf r.off)) :
    (volView fs p).wp (ext2Rename oldDir a newDir b)
      (RenameOutcome fs p v (v.nodes oldDir).inode (v.nodes newDir).inode LD LE a b) v := by
  refine View.wp_get fun s _ hs => ?_
  have hpool : s.nodePool = v.nodes := congrArg Vol.nodes hs
  simp only [hpool, hfs]
  refine View.wp_ite (fun _ => View.wp_pure (.refused (by norm_num))) fun _ => ?_
  refine View.wp_ite (fun _ => View.wp_pure (.refused (by norm_num))) fun _ => ?_
  refine View.wp_ite (fun _ => View.wp_pure (.refused (by norm_num))) fun hlen => ?_
  refine View.wp_bind (vol_readInode hl hp hD.inode) ?_
  rintro _ v₁ ⟨rfl, rfl⟩
  refine View.wp_bind (vol_dirWalk _ (hD.recordsIn hl) ()) ?_
  rintro _ v₂ ⟨rfl, rfl⟩
  rw [search_findVisit]
  cases hfind : lookupRecord (recordsOf fs v₂ LD) a with
  | none => exact View.wp_pure (.refused (by norm_num))
  | some r =>
    obtain ⟨hmem, hbuf, -, -⟩ := lookupRecord_some hfind
    have hplain : Plain fs p r.phys := by
      obtain ⟨offs, hx, -⟩ := mem_entriesOf.mp hmem
      exact (hD.file _ hx).plain
    refine View.wp_bind (vol_readInode hl hp (htarget r hfind)) ?_
    rintro _ v₃ ⟨rfl, rfl⟩
    refine View.wp_ite (fun _ => View.wp_pure (.refused (by norm_num))) fun _ => ?_
    refine View.wp_ite (fun hsame => ?_) fun _ => ?_
    · refine View.wp_bind (vol_writeBlock hl hp hplain _) ?_
      rintro _ v₄ ⟨rfl, rfl⟩
      refine View.wp_ite (fun _ => View.wp_pure ?_) fun h => absurd rfl h
      exact .inPlace hfind (by rw [hsame.1]) hsame.2 (by omega)
    · refine View.wp_bind (vol_insert_dirOn hl hp hr rfl hE (by omega)) ?_
      rintro ok v₄ hout
      refine View.wp_ite (fun hok => ?_) fun hok => View.wp_pure ?_
      · obtain rfl : ok = true := hok
        refine View.wp_bind (vol_readBlock hl hplain) ?_
        rintro _ v₄ ⟨rfl, rfl⟩
        refine View.wp_bind (vol_writeBlock hl hp hplain _) ?_
        rintro _ v₅ ⟨rfl, rfl⟩
        exact View.wp_ite (fun _ => View.wp_pure (.moved hfind (by omega) hout))
          fun h => absurd rfl h
      · obtain rfl : ok = false := by simpa using hok
        exact .failed hfind hout

/-! ## What a directory says -/

/-- The blocks of the directory are exactly covered by records, and `es` are the entries in them. -/
def Lists (fs : Ext2Fs) (p : Plan) (v : Vol) (ino : ℕ) (es : Multiset LiveEntry) : Prop :=
  ∃ L, Listed fs p v ino L ∧ ((entriesOf fs v L).map fun x => x.2.2 : Multiset LiveEntry) = es

/-- A walk over the directory finds `name` first in a record of the inode `i`. -/
def Resolves (fs : Ext2Fs) (p : Plan) (v : Vol) (ino : ℕ) (name : List UInt8) (i : ℕ) : Prop :=
  ∃ L r, Listed fs p v ino L ∧ lookupRecord (recordsOf fs v L) name = some r ∧
    deInode r.buf r.off = i

/-- The entries of a directory with the blocks `L`. -/
def liveEntries (fs : Ext2Fs) (v : Vol) (L : DirBlocks) : Multiset LiveEntry :=
  ((entriesOf fs v L).map fun x => x.2.2 : List LiveEntry)

lemma mem_liveEntries : e ∈ liveEntries fs v L ↔ ∃ phys off, (phys, off, e) ∈ entriesOf fs v L := by
  rw [liveEntries, Multiset.mem_coe, List.mem_map]
  constructor
  · rintro ⟨⟨phys, off, e⟩, hx, rfl⟩
    exact ⟨phys, off, hx⟩
  · rintro ⟨phys, off, hx⟩
    exact ⟨_, hx, rfl⟩

section Says

variable {l : List (ℕ × ℕ × LiveEntry)} {es : Multiset LiveEntry}

lemma Listed.lists (h : Listed fs p v ino L) (hperm : (entriesOf fs v L).Perm l) :
    Lists fs p v ino (l.map fun x => x.2.2 : List LiveEntry) :=
  ⟨L, h, Multiset.coe_eq_coe.mpr (hperm.map _)⟩

lemma Listed.lists_cons (h : Listed fs p v ino L)
    (hperm : (entriesOf fs v L).Perm ((phys, off, e) :: l)) :
    Lists fs p v ino (e ::ₘ (l.map fun x => x.2.2 : List LiveEntry)) := by
  rw [Multiset.cons_coe]
  exact h.lists hperm

/-- The entries of a directory are those in its blocks. -/
lemma Lists.eq_liveEntries (hl : Layout fs) (h : Lists fs p v ino es) (hL : Listed fs p v ino L) :
    es = liveEntries fs v L := by
  obtain ⟨L', hL', rfl⟩ := h
  rw [liveEntries, hL.entriesOf_unique hl hL']

/-- A name that only one entry has leads to its inode. -/
lemma Lists.resolves (h : Lists fs p v ino (e ::ₘ es)) (hname : e.name.length ≤ 255)
    (hother : ∀ e' ∈ es, e'.name ≠ e.name) : Resolves fs p v ino e.name e.inode := by
  obtain ⟨L, hL, heq⟩ := h
  have heq : liveEntries fs v L = e ::ₘ es := heq
  have hmem : e ∈ liveEntries fs v L := heq ▸ Multiset.mem_cons_self e es
  obtain ⟨phys, off, he⟩ := mem_liveEntries.mp hmem
  obtain ⟨r, hr⟩ := exists_lookupRecord hname he rfl
  obtain ⟨hrec, -, -, hrname⟩ := lookupRecord_some hr
  have hin : entryAt r.buf r.off ∈ e ::ₘ es := heq ▸ mem_liveEntries.mpr ⟨_, _, hrec⟩
  refine ⟨L, r, hL, hr, ?_⟩
  rcases Multiset.mem_cons.mp hin with hentry | hin
  · exact congrArg LiveEntry.inode hentry
  · exact absurd (hrname hname) (hother _ hin)

/-- A name that no entry has leads nowhere. -/
lemma Lists.not_resolves (hl : Layout fs) (h : Lists fs p v ino es) (hname : name.length ≤ 255)
    (hother : ∀ e' ∈ es, e'.name ≠ name) : ¬Resolves fs p v ino name i := by
  rintro ⟨L, r, hL, hr, -⟩
  obtain ⟨hrec, -, -, hrname⟩ := lookupRecord_some hr
  refine hother (entryAt r.buf r.off) ?_ (hrname hname)
  rw [h.eq_liveEntries hl hL]
  exact mem_liveEntries.mpr ⟨_, _, hrec⟩

end Says

/-! ## The entry moves -/

/-- The directory `D` has lost the entry `e`, and `E` has got it with the name `b`.  Both have their
other entries. -/
def EntryMoved (fs : Ext2Fs) (p : Plan) (v : Vol) (D E : ℕ) (e : LiveEntry)
    (b : List UInt8) (v' : Vol) :
    Prop :=
  ∃ es, Lists fs p v D (e ::ₘ es) ∧
    (D = E → Lists fs p v' D ({ e with name := b } ::ₘ es)) ∧
    (D ≠ E → Lists fs p v' D es ∧
      ∃ es', Lists fs p v E es' ∧ Lists fs p v' E ({ e with name := b } ::ₘ es'))

section Moved

variable (hl : Layout fs) (hp : p.Fits fs) (hD : DirOn fs p v D LD)
  (hr : lookupRecord (recordsOf fs v LD) a = some r) (hb : b.length ≤ 255)

include hl hp hD hr hb

/-- The name is rewritten in its record. -/
lemma entryMoved_inPlace (hfit : align4 (8 + b.length) ≤ deRecLen r.buf r.off) :
    EntryMoved fs p v D D (entryAt r.buf r.off) b
    (v.write fs r.phys (renameRecord r.buf r.off b)) := by
  obtain ⟨hmem, hbuf, -, -⟩ := lookupRecord_some hr
  rw [hbuf] at hmem hfit ⊢
  obtain ⟨hdir, es, hold, hnew⟩ := hD.renameAt hl hp hmem hb hfit
  exact ⟨_, hD.toListed.lists_cons hold, fun _ => hdir.toListed.lists_cons hnew, fun hne =>
    absurd rfl hne⟩

/-- A new entry is put in, and the old one is cleared.  What was taken are blocks for the directory
`E`. -/
lemma entryMoved_moved {v₁ v₂ : Vol} (hres : Reserved fs p v) (hE : DirOn fs p v E LE)
    (hapart : D ≠ E → Disjoint (ownBlocks fs v (inodeIn fs p v D))
      (ownBlocks fs v (inodeIn fs p v E)))
    (hout : InsertOutcome fs p v E (recordsOf fs v LE) b (deInode r.buf r.off)
      (deFileType r.buf r.off) true v₁)
    (hv₂ : v₂ = v₁.write fs r.phys (Bytes.put32 (blockIn fs v₁ r.phys) r.off 0)) :
    EntryMoved fs p v D E (entryAt r.buf r.off) b v₂ ∧
      ∀ x, v₂.used x ≠ v.used x → v.used x = false ∧ x ∈ ownBlocks fs v₂ (inodeIn fs p v₂ E) := by
  obtain ⟨hmem, -, hlive, -⟩ := lookupRecord_some hr
  generalize he : entryAt r.buf r.off = e at hmem
  have hino : deInode r.buf r.off = e.inode := congrArg LiveEntry.inode he
  have htype : deFileType r.buf r.off = e.type := congrArg LiveEntry.type he
  have hinoLt : 0 < deInode r.buf r.off ∧ deInode r.buf r.off < 2 ^ 32 :=
    ⟨Nat.pos_of_ne_zero hlive, Bytes.le32_lt _ _⟩
  rw [hino] at hout hinoLt
  rw [htype] at hout
  obtain ⟨L', phys', off', hE', hperm, hheld, hadded⟩ := hout.dirOn hl hp hres hE hb hinoLt
  obtain ⟨hchanged, hused, -, -⟩ := hout.changed hl hp hE
  obtain ⟨offs, hx, -⟩ := mem_entriesOf.mp hmem
  have hfile : FileBlock fs p v r.phys := hD.file _ hx
  have hown := hD.toListed.mem_ownBlocks hl hx
  have hclear : ChangedIn fs p v₁ v₂ {r.phys} ∅ := by
    rw [hv₂]
    exact ChangedIn.write hl hp (hfile.mono hused) _
  have hused₂ : ∀ x, v₂.used x = v₁.used x := fun x => by rw [hv₂]; rfl
  have htaken : DirOn fs p v₂ E L' → heldBlocks fs p v₂ E L' = heldBlocks fs p v₁ E L' → ∀ x,
      v₂.used x ≠ v.used x → v.used x = false ∧ x ∈ ownBlocks fs v₂ (inodeIn fs p v₂ E) := by
    intro hE₂ heq x hne
    rw [hused₂] at hne
    cases hx : v.used x with
    | true => exact absurd ((hused x hx).trans hx.symm) hne
    | false =>
      rw [hx] at hne
      exact ⟨rfl, hE₂.held_subset hl (heq ▸ hadded x hx (by simpa using hne))⟩
  have hold := List.perm_cons_erase hmem
  by_cases hsame : D = E
  · -- both entries are in the one directory
    subst hsame
    rw [← hD.toListed.entriesOf_unique hl hE.toListed] at hperm
    have hmem₁ : (r.phys, r.off, e) ∈ entriesOf fs v₁ L' :=
      hperm.mem_iff.mpr (List.mem_cons_of_mem _ hmem)
    obtain ⟨hD₂, hcleared, hheld₂⟩ := hE'.clear hl hp hmem₁
    rw [← hv₂] at hD₂ hcleared hheld₂
    have hnew : (entriesOf fs v₂ L').Perm ((phys', off', { e with name := b }) ::
        (entriesOf fs v LD).erase (r.phys, r.off, e)) := by
      have hswap := (hcleared.symm.trans hperm).trans ((hold.cons _).trans (List.Perm.swap _ _ _))
      exact hswap.cons_inv
    exact ⟨⟨_, hD.toListed.lists_cons hold, fun _ => hD₂.toListed.lists_cons hnew, fun hne =>
      absurd rfl hne⟩, htaken hD₂ hheld₂⟩
  · -- the insertion leaves the old directory alone, and the clearing the new one
    obtain ⟨hD₁, hentries₁, -⟩ := hD.frame hl hchanged hused
      ((hapart hsame).mono_left (hD.held_subset hl)) hsame
    obtain ⟨hD₂, hcleared, -⟩ := hD₁.clear hl hp (by rw [hentries₁]; exact hmem)
    rw [hentries₁, ← hv₂] at hcleared
    rw [← hv₂] at hD₂
    have hgone : (entriesOf fs v₂ LD).Perm ((entriesOf fs v LD).erase (r.phys, r.off, e)) :=
      (hcleared.symm.trans hold).cons_inv
    have hphys : Disjoint (heldBlocks fs p v₁ E L') {r.phys} := by
      rw [Set.disjoint_singleton_right]
      intro hmemx
      rcases hheld _ hmemx with hown' | hfree
      · exact Set.disjoint_left.mp (hapart hsame) hown hown'
      · rw [hfile.used] at hfree
        cases hfree
    obtain ⟨hE₂, hentries₂, hheld₂⟩ := hE'.frame hl hclear (fun x hx => by rw [hused₂]; exact hx)
      hphys (Set.notMem_empty E)
    rw [← hentries₂] at hperm
    exact ⟨⟨_, hD.toListed.lists_cons hold, fun heq => absurd heq hsame, fun _ =>
      ⟨hD₂.toListed.lists hgone, _, hE.toListed.lists (List.Perm.refl _),
        hE₂.toListed.lists_cons hperm⟩⟩, htaken hE₂ hheld₂⟩

end Moved

/-! ## The file -/

/-- The contents of a file are as before. -/
structure SameContents (fs : Ext2Fs) (v v' : Vol) (inode : Bytes) : Prop where
  map : ∀ lb < 2 ^ 32, getBlockOn fs v'.data inode lb = getBlockOn fs v.data inode lb
  blocks : ∀ lb < 2 ^ 32, getBlockOn fs v.data inode lb ≠ 0 →
    blockIn fs v' (getBlockOn fs v.data inode lb) = blockIn fs v (getBlockOn fs v.data inode lb)

/-- The blocks of a file, and those that are read to find them, are blocks of files outside `S`. -/
structure BlocksApart (fs : Ext2Fs) (p : Plan) (v : Vol) (inode : Bytes) (S : Set ℕ) : Prop where
  path : ∀ lb < 2 ^ 32, ∀ x ∈ mapPath fs v.data inode lb, FileBlock fs p v x ∧ x ∉ S
  blocks : ∀ lb < 2 ^ 32, getBlockOn fs v.data inode lb ≠ 0 →
    FileBlock fs p v (getBlockOn fs v.data inode lb) ∧ getBlockOn fs v.data inode lb ∉ S

lemma ChangedIn.sameContents (hl : Layout fs) {inode : Bytes} (h : ChangedIn fs p v v' S I)
    (hown : BlocksApart fs p v inode S) : SameContents fs v v' inode := by
  refine ⟨fun lb hlb => getBlockOn_vol hl fun x hx => ?_, fun lb hlb h0 => ?_⟩
  · obtain ⟨hfile, hne⟩ := hown.path lb hlb x hx
    exact h.blocks x hfile hne
  · obtain ⟨hfile, hne⟩ := hown.blocks lb hlb h0
    exact h.blocks _ hfile hne

/-! ## Renaming -/

/-- Two directories of a volume, which may be the same, and a file in the first of them. -/
structure Renamable (fs : Ext2Fs) (p : Plan) (v : Vol) (D E : ℕ) (LD LE : DirBlocks)
    (e : LiveEntry) :
    Prop where
  layout : Layout fs
  fits : p.Fits fs
  reserved : Reserved fs p v
  oldDir : DirOn fs p v D LD
  newDir : DirOn fs p v E LE
  apart : D ≠ E → Disjoint (ownBlocks fs v (inodeIn fs p v D)) (ownBlocks fs v (inodeIn fs p v E))
  /-- No name occurs twice in the directory. -/
  distinct : ((entriesOf fs v LD).map fun x => x.2.2.name).Nodup
  entry : ∃ phys off, (phys, off, e) ∈ entriesOf fs v LD
  inode : InodeIn fs e.inode
  notDir : isDirInode (inodeIn fs p v e.inode) = false

namespace Renamable

variable (h : Renamable fs p v D E LD LE e)

include h

lemma name_length : e.name.length ≤ 255 := by
  obtain ⟨phys, off, he⟩ := h.entry
  obtain ⟨-, -, -, -, rfl⟩ := mem_entriesOf.mp he
  have hlt := deNameLen_lt (blockIn fs v phys) off
  have hlen : (entryAt (blockIn fs v phys) off).name.length = deNameLen (blockIn fs v phys) off :=
    Bytes.length_slice _ _ _
  omega

/-- Looking the name up leads to the entry. -/
lemma entryAt_eq (hr : lookupRecord (recordsOf fs v LD) e.name = some r) :
    entryAt r.buf r.off = e := by
  obtain ⟨hmem, -, -, hname⟩ := lookupRecord_some hr
  obtain ⟨phys, off, he⟩ := h.entry
  have heq := List.inj_on_of_nodup_map h.distinct hmem he (hname h.name_length)
  exact congrArg (fun x => x.2.2) heq

/-- The other entries have other names. -/
lemma others {es : Multiset LiveEntry} (hes : Lists fs p v D (e ::ₘ es)) :
    ∀ e' ∈ es, e'.name ≠ e.name := by
  intro e' he' heq
  have hnames : (Multiset.map LiveEntry.name (e ::ₘ es)).Nodup := by
    rw [hes.eq_liveEntries h.layout h.oldDir.toListed, liveEntries, Multiset.map_coe, List.map_map]
    exact h.distinct
  rw [Multiset.map_cons, Multiset.nodup_cons] at hnames
  exact hnames.1 (Multiset.mem_map.mpr ⟨e', he', heq⟩)

lemma ne_newDir : e.inode ≠ E := fun heq => by
  have hdir := h.newDir.isDir
  rw [← heq, h.notDir] at hdir
  cases hdir

end Renamable

/-- The file with the entry `e` in the directory `D` is called `b` in the directory `E` now, and
nothing else has changed. -/
structure Renamed (fs : Ext2Fs) (p : Plan) (v : Vol) (D E : ℕ) (e : LiveEntry)
    (b : List UInt8) (v' : Vol) :
    Prop where
  resolves : Resolves fs p v' E b e.inode
  gone : (D = E → e.name ≠ b) → ∀ i, ¬Resolves fs p v' D e.name i
  /-- The other entries of the directories. -/
  entries : ∃ es, Lists fs p v D (e ::ₘ es) ∧
    (D = E → Lists fs p v' D ({ e with name := b } ::ₘ es)) ∧
    (D ≠ E → Lists fs p v' D es ∧
      ∃ es', Lists fs p v E es' ∧ Lists fs p v' E ({ e with name := b } ::ₘ es'))
  inode : inodeIn fs p v' e.inode = inodeIn fs p v e.inode
  contents : BlocksApart fs p v (inodeIn fs p v e.inode)
      (ownBlocks fs v (inodeIn fs p v D) ∪ ownBlocks fs v (inodeIn fs p v E)) →
    SameContents fs v v' (inodeIn fs p v e.inode)
  inodeUsed : v'.inodeUsed = v.inodeUsed
  /-- What was taken are blocks for the directory `E`. -/
  used : ∀ x, v'.used x ≠ v.used x → v.used x = false ∧ x ∈ ownBlocks fs v' (inodeIn fs p v' E)

namespace Renamable

variable (h : Renamable fs p v D E LD LE e)

include h

/-- The record of the entry is in a block of the directory. -/
lemma phys_mem (hr : lookupRecord (recordsOf fs v LD) e.name = some r) :
    FileBlock fs p v r.phys ∧ r.phys ∈ ownBlocks fs v (inodeIn fs p v D) := by
  obtain ⟨offs, hx, -⟩ := mem_entriesOf.mp (lookupRecord_some hr).1
  exact ⟨h.oldDir.file _ hx, h.oldDir.toListed.mem_ownBlocks h.layout hx⟩

/-- The file does not notice changes of the directories. -/
lemma file_kept (hS : S ⊆ ownBlocks fs v (inodeIn fs p v D) ∪ ownBlocks fs v (inodeIn fs p v E))
    (hI : I ⊆ {E}) (hc : ChangedIn fs p v v' S I) :
    inodeIn fs p v' e.inode = inodeIn fs p v e.inode ∧
      (BlocksApart fs p v (inodeIn fs p v e.inode)
          (ownBlocks fs v (inodeIn fs p v D) ∪ ownBlocks fs v (inodeIn fs p v E)) →
        SameContents fs v v' (inodeIn fs p v e.inode)) := by
  refine ⟨hc.inodes _ h.inode fun hi => h.ne_newDir (hI hi), fun hown => ?_⟩
  exact (hc.mono hS (subset_refl I)).sameContents h.layout hown

/-- The new name leads to the file, and the old one nowhere. -/
lemma resolves (hmoved : EntryMoved fs p v D E e b v') (hb : b.length ≤ 255)
    (hfresh : (∀ x ∈ entriesOf fs v LE, x.2.2.name ≠ b) ∨ (b = e.name ∧ D = E)) :
    Resolves fs p v' E b e.inode ∧ ((D = E → e.name ≠ b) → ∀ i, ¬Resolves fs p v' D e.name i) := by
  obtain ⟨es, hold, hone, htwo⟩ := hmoved
  have hother := h.others hold
  have hfreshE : ∀ es', Lists fs p v E es' → (∀ x ∈ entriesOf fs v LE, x.2.2.name ≠ b) →
      ∀ e' ∈ es', e'.name ≠ b := by
    intro es' hes' hno e' he'
    rw [hes'.eq_liveEntries h.layout h.newDir.toListed] at he'
    obtain ⟨phys, off, hx⟩ := mem_liveEntries.mp he'
    exact hno _ hx
  by_cases hsame : D = E
  · have hnew := hone hsame
    have hothers : ∀ e' ∈ es, e'.name ≠ b := by
      rcases hfresh with hno | ⟨rfl, -⟩
      · exact fun e' he' => hfreshE _ (hsame ▸ hold) hno e' (Multiset.mem_cons_of_mem he')
      · exact hother
    refine ⟨hsame ▸ hnew.resolves hb hothers, fun hne i =>
      hnew.not_resolves h.layout h.name_length ?_⟩
    intro e' he'
    rcases Multiset.mem_cons.mp he' with rfl | he'
    · exact (hne hsame).symm
    · exact hother e' he'
  · obtain ⟨hgone, es', holdE, hnewE⟩ := htwo hsame
    have hno := hfresh.resolve_right fun hc => hsame hc.2
    exact ⟨hnewE.resolves hb (hfreshE es' holdE hno), fun _ i =>
      hgone.not_resolves h.layout h.name_length hother⟩

/-- The name is rewritten in its record. -/
lemma renamed_inPlace (hsame : D = E) (hr : lookupRecord (recordsOf fs v LD) e.name = some r)
    (hfit : align4 (8 + b.length) ≤ deRecLen r.buf r.off) (hb : b.length ≤ 255)
    (hfresh : (∀ x ∈ entriesOf fs v LE, x.2.2.name ≠ b) ∨ (b = e.name ∧ D = E)) :
    Renamed fs p v D E e b (v.write fs r.phys (renameRecord r.buf r.off b)) := by
  subst hsame
  have hmoved := entryMoved_inPlace h.layout h.fits h.oldDir hr hb hfit
  rw [h.entryAt_eq hr] at hmoved
  obtain ⟨hfile, hown⟩ := h.phys_mem hr
  obtain ⟨hinode, hcontents⟩ := h.file_kept
    (Set.singleton_subset_iff.mpr (Set.mem_union_left _ hown)) (Set.empty_subset _)
    (ChangedIn.write (v := v) h.layout h.fits hfile (renameRecord r.buf r.off b))
  obtain ⟨hres, hgone⟩ := h.resolves hmoved hb hfresh
  exact ⟨hres, hgone, hmoved, hinode, hcontents, rfl, fun x hx => absurd rfl hx⟩

/-- A new entry is put in, and the old one is cleared. -/
lemma renamed_moved {v₁ : Vol} (hr : lookupRecord (recordsOf fs v LD) e.name = some r)
    (hb : b.length ≤ 255)
    (hout : InsertOutcome fs p v E (recordsOf fs v LE) b (deInode r.buf r.off)
      (deFileType r.buf r.off) true v₁)
    (hfresh : (∀ x ∈ entriesOf fs v LE, x.2.2.name ≠ b) ∨ (b = e.name ∧ D = E)) :
    Renamed fs p v D E e b (v₁.write fs r.phys (Bytes.put32 (blockIn fs v₁ r.phys) r.off 0)) := by
  obtain ⟨hmoved, htaken⟩ := entryMoved_moved h.layout h.fits h.oldDir hr hb h.reserved h.newDir
    h.apart hout rfl
  rw [h.entryAt_eq hr] at hmoved
  obtain ⟨hchanged, hused, ⟨hinodeUsed, -, -⟩, -⟩ := hout.changed h.layout h.fits h.newDir
  obtain ⟨hfile, hown⟩ := h.phys_mem hr
  have hclear : ChangedIn fs p v₁ _ {r.phys} ∅ :=
    ChangedIn.write h.layout h.fits (hfile.mono hused) (Bytes.put32 (blockIn fs v₁ r.phys) r.off 0)
  obtain ⟨hinode, hcontents⟩ := h.file_kept
    (Set.union_subset (Set.subset_union_right)
      (Set.singleton_subset_iff.mpr (Set.mem_union_left _ hown)))
    (by rw [Set.union_empty]) (hchanged.trans hclear hused)
  obtain ⟨hres, hgone⟩ := h.resolves hmoved hb hfresh
  exact ⟨hres, hgone, hmoved, hinode, hcontents, hinodeUsed, htaken⟩

/-- A directory that was left alone still leads from the name to the inode. -/
lemma still_resolves (hc : ChangedIn fs p v v' ∅ ∅) (hused : ∀ x, v.used x = true →
    v'.used x = true) :
    Resolves fs p v' D e.name e.inode := by
  obtain ⟨hdir, hentries, -⟩ := h.oldDir.frame h.layout hc hused (Set.disjoint_empty _)
    (Set.notMem_empty D)
  obtain ⟨phys, off, he⟩ := h.entry
  have hperm := List.perm_cons_erase he
  have hlists := hdir.toListed.lists_cons ((List.Perm.of_eq hentries).trans hperm)
  exact hlists.resolves h.name_length (h.others (h.oldDir.toListed.lists_cons hperm))

/-- Either the file is renamed, or the name leads to it as before. -/
lemma result {rc : ℤ} (hout : RenameOutcome fs p v D E LD LE e.name b rc v')
    (hfresh : (∀ x ∈ entriesOf fs v LE, x.2.2.name ≠ b) ∨ (b = e.name ∧ D = E)) :
    (rc = 0 → Renamed fs p v D E e b v') ∧ (rc < 0 → Resolves fs p v' D e.name e.inode) := by
  cases hout with
  | refused hrc =>
    exact ⟨fun h0 => absurd h0 hrc.ne, fun _ =>
      h.still_resolves (ChangedIn.of_data rfl) fun _ hx => hx⟩
  | inPlace hr hsame hfit hb =>
    exact ⟨fun _ => h.renamed_inPlace hsame hr hfit hb hfresh, fun h0 => absurd h0 (lt_irrefl 0)⟩
  | failed _ hout =>
    obtain ⟨-, hused, -, hkept⟩ := hout.changed h.layout h.fits h.newDir
    exact ⟨fun h0 => absurd h0 (by norm_num), fun _ => h.still_resolves (hkept rfl) hused⟩
  | moved hr hb hout =>
    exact ⟨fun _ => h.renamed_moved hr hb hout hfresh, fun h0 => absurd h0 (lt_irrefl 0)⟩

end Renamable

/-- When `ext2_rename` returns 0, the file is renamed and all else is as it was; when it returns an
error, the old name leads to the file as before. -/
theorem ext2Rename_result {s : Ext2State} {oldDir newDir : ℕ} (hgood : (volView fs p).good s)
    (hfs : (s.nodePool oldDir).fs = fs)
    (h : Renamable fs p ((volView fs p).view s) (s.nodePool oldDir).inode (s.nodePool newDir).inode
      LD LE e)
    (hfresh : (∀ x ∈ entriesOf fs ((volView fs p).view s) LE, x.2.2.name ≠ b) ∨
      (b = e.name ∧ (s.nodePool oldDir).inode = (s.nodePool newDir).inode)) :
    wp (ext2Rename oldDir e.name newDir b) (fun rc s' =>
      (rc = 0 → Renamed fs p ((volView fs p).view s) (s.nodePool oldDir).inode
        (s.nodePool newDir).inode e b ((volView fs p).view s')) ∧
      (rc < 0 → Resolves fs p ((volView fs p).view s') (s.nodePool oldDir).inode e.name e.inode))
      s := by
  have hrun := vol_rename (a := e.name) (b := b) h.layout h.fits h.reserved hfs h.oldDir h.newDir
    fun r hr => by
    have hino : deInode r.buf r.off = e.inode := congrArg LiveEntry.inode (h.entryAt_eq hr)
    exact hino ▸ h.inode
  exact wp_mono (hrun s hgood rfl) fun rc s' hr => h.result hr.2 hfresh

/-- A directory with one entry, for an empty file. -/
def oneEntry : OneDir :=
  ⟨8, 7, [], newDirBlock 1024 13 [97] 1, fun i => if i = 1 then 0x80 else if i = 26 then 1 else 0⟩

lemma oneEntry_ok : oneEntry.Ok := ⟨by decide, by decide⟩

lemma oneEntry_covered : Covered 1024 oneEntry.dir [0] ∧
    entriesAt oneEntry.dir [0] = [(0, ⟨13, 1, [97]⟩)] :=
  covered_newDirBlock (by decide) (by decide) (by decide)

lemma oneEntry_dirOn : DirOn oneEntry.fs oneEntry.plan (oneEntry.vol 1) 12 [(7, [0])] :=
  oneEntry_ok.dirOn (by decide) oneEntry_covered.1

lemma oneEntry_entries : entriesOf oneEntry.fs (oneEntry.vol 1) [(7, [0])] =
    [(7, 0, ⟨13, 1, [97]⟩)] := by
  have h := oneEntry_ok.entriesOf_dir (n := 1) (by decide) oneEntry_covered.1
  rw [oneEntry_covered.2] at h
  exact h

/-- A file in one of two directories. -/
def twoDirs : OneDir where
  count := 9
  block := 7
  others := [8]
  dir i := if i < 1024 then newDirBlock 1024 14 [97] 1 i else newDirBlock 1024 15 [99] 1 (i - 1024)
  file i := if i = 1 then 0x40 else if i = 5 then 4 else if i = 26 then 2
    else if i = 40 then 8 else 0

lemma twoDirs_ok : twoDirs.Ok := ⟨by decide, by decide⟩

/-- The inode of the second directory. -/
lemma twoDirs_second : inodeIn twoDirs.fs twoDirs.plan (twoDirs.vol 2) 13 =
    Bytes.clip 128 twoDirs.file :=
  twoDirs_ok.inodeIn_file

lemma twoDirs_covered : Covered 1024 twoDirs.dir [0] := ⟨⟨rfl, rfl⟩, by decide⟩

lemma twoDirs_firstDir : DirOn twoDirs.fs twoDirs.plan (twoDirs.vol 2) 12 [(7, [0])] :=
  twoDirs_ok.dirOn (by decide) twoDirs_covered

lemma twoDirs_secondDir : DirOn twoDirs.fs twoDirs.plan (twoDirs.vol 2) 13 [(8, [0])] := by
  have hcontents : blockIn twoDirs.fs (twoDirs.vol 2) 8 =
      Bytes.clip 1024 (Bytes.shift twoDirs.dir 1024) :=
    twoDirs_ok.blockIn_behind (k := 1) (by decide) (by decide)
  refine DirOn.single twoDirs_ok.layout (by decide) ?_ ?_ ?_ ?_
    (twoDirs_ok.fileBlock ⟨by decide, by decide⟩ (by decide)) ?_
  · rw [twoDirs_second]
    decide
  · rw [twoDirs_second]
    decide
  · rw [twoDirs_second]
    decide
  · rw [twoDirs_second]
    decide
  · rw [hcontents]
    exact ⟨⟨rfl, rfl⟩, by decide⟩

lemma twoDirs_entries : entriesOf twoDirs.fs (twoDirs.vol 2) [(7, [0])] =
    [(7, 0, ⟨14, 1, [97]⟩)] := by
  have hentries : entriesAt twoDirs.dir [0] = [(0, ⟨14, 1, [97]⟩)] := by decide
  exact (twoDirs_ok.entriesOf_dir (by decide) twoDirs_covered).trans (by rw [hentries]; rfl)

lemma twoDirs_apart : Disjoint
    (ownBlocks twoDirs.fs (twoDirs.vol 2) (inodeIn twoDirs.fs twoDirs.plan (twoDirs.vol 2) 12))
    (ownBlocks twoDirs.fs (twoDirs.vol 2)
    (inodeIn twoDirs.fs twoDirs.plan (twoDirs.vol 2) 13)) := by
  have hsecond : ownBlocks twoDirs.fs (twoDirs.vol 2)
      (inodeIn twoDirs.fs twoDirs.plan (twoDirs.vol 2) 13) ⊆ {8} := by
    rw [twoDirs_second]
    exact ownBlocks_single (by decide) (by decide)
  exact Set.disjoint_of_subset twoDirs_ok.ownBlocks_dir hsecond
    (Set.disjoint_singleton.mpr (by decide))

lemma twoDirs_renamable : Renamable twoDirs.fs twoDirs.plan (twoDirs.vol 2) 12 13 [(7, [0])]
    [(8, [0])] ⟨14, 1, [97]⟩ where
  layout := twoDirs_ok.layout
  fits := twoDirs_ok.fits
  reserved := twoDirs_ok.reserved (by decide)
  oldDir := twoDirs_firstDir
  newDir := twoDirs_secondDir
  apart _ := twoDirs_apart
  distinct := by
    rw [twoDirs_entries]
    exact List.nodup_singleton _
  entry := ⟨7, 0, by rw [twoDirs_entries]; exact List.mem_singleton_self _⟩
  inode := by decide
  notDir := by
    rw [twoDirs_ok.inodeIn_vol (k := 13) (by decide)]
    decide

lemma twoDirs_fresh : ∀ x ∈ entriesOf twoDirs.fs (twoDirs.vol 2) [(8, [0])], x.2.2.name ≠ [98] := by
  have hcontents : blockIn twoDirs.fs (twoDirs.vol 2) 8 =
      Bytes.clip 1024 (Bytes.shift twoDirs.dir 1024) :=
    twoDirs_ok.blockIn_behind (k := 1) (by decide) (by decide)
  rw [entriesOf_cons, hcontents]
  decide

/-- The file moves to the second directory and gets the name "b". -/
theorem ext2Rename_result_twoDirs : wp (ext2Rename 0 [97] 1 [98]) (fun rc s' => rc = 0 ∧
    (rc = 0 → Renamed twoDirs.fs twoDirs.plan (twoDirs.vol 2) 12 13 ⟨14, 1, [97]⟩ [98]
      ((volView twoDirs.fs twoDirs.plan).view s')) ∧
    (rc < 0 → Resolves twoDirs.fs twoDirs.plan ((volView twoDirs.fs twoDirs.plan).view s') 12 [97]
      14)) (twoDirs.state 2) := by
  have hresult := @ext2Rename_result twoDirs.fs twoDirs.plan [(7, [0])] [(8, [0])]
    [98] ⟨14, 1, [97]⟩
    (twoDirs.state 2) 0 1 (twoDirs_ok.good 2) rfl twoDirs_renamable (.inl twoDirs_fresh)
  have hrun : ((ext2Rename 0 [97] 1 [98]) (twoDirs.state 2)).any (fun r => r.1 = 0) = true := by
    decide +kernel
  obtain ⟨rc, s', hres, hout⟩ := hresult
  rw [hres] at hrun
  exact ⟨rc, s', hres, of_decide_eq_true hrun, hout⟩

end Ext2

end CoolFrost

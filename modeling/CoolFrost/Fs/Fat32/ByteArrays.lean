import CoolFrost.Fs.Fat32.OneFile

/-!
# FAT32: files behave as byte arrays

A file node stands for a list of bytes.  `fat32_read` returns a piece of it, `fat32_write` replaces
a piece of it or extends it, and every other file keeps its bytes.  Both functions return the number
of bytes as an `int`, so the return value is that number only below `2 ^ 31`.
-/

namespace CoolFrost

open Program

namespace Fat32

variable {fs : Fat32Fs} {v v' : Volume} {C : Catalogue}

/-! ## Contents of files -/

/-- The first `n` bytes of a file with the clusters `l`. -/
def fileBytes (fs : Fat32Fs) (v : Volume) (l : List ℕ) (n : ℕ) : List UInt8 :=
  (List.range n).map fun i => v.data (fileAddr fs l i)

/-- The file with the entry at `a` contains the bytes `arr`. -/
def Holds (fs : Fat32Fs) (v : Volume) (a : ℕ) (arr : List UInt8) : Prop :=
  ∃ l, FileChain fs v.fat (deCluster v.data a) l ∧ arr = fileBytes fs v l (deSize v.data a)

/-- The node is one of the file with the entry at `a`, and agrees with the entry. -/
structure NodeOf (fs : Fat32Fs) (v : Volume) (node a : ℕ) : Prop where
  file : (v.nodes node).type = .file
  fs_eq : (v.nodes node).fi.fs = fs
  slot : HasSlot fs (v.nodes node)
  addr : slotAddr fs (v.nodes node) = a
  inode : (v.nodes node).inode = deCluster v.data a
  size : (v.nodes node).size = deSize v.data a

/-- The list `arr` with the bytes `new` written over it from `offset` on. -/
def splice (arr : List UInt8) (offset : ℕ) (new : List UInt8) : List UInt8 :=
  arr.take offset ++ new ++ arr.drop (offset + new.length)

@[simp] lemma length_fileBytes (fs : Fat32Fs) (v : Volume) (l : List ℕ) (n : ℕ) :
    (fileBytes fs v l n).length = n := by simp [fileBytes]

lemma getElem?_fileBytes {l : List ℕ} {n i : ℕ} (h : i < n) :
    (fileBytes fs v l n)[i]? = some (v.data (fileAddr fs l i)) := by
  simp [fileBytes, h]

lemma fileBytes_congr {l : List ℕ} {n : ℕ}
    (h : ∀ i < n, v'.data (fileAddr fs l i) = v.data (fileAddr fs l i)) :
    fileBytes fs v' l n = fileBytes fs v l n :=
  List.map_congr_left fun i hi => h i (List.mem_range.mp hi)

lemma splice_nil (arr : List UInt8) (offset : ℕ) : splice arr offset [] = arr := by
  simp [splice]

/-- The bytes of a file whose window `[offset, offset + n)` has been overwritten. -/
lemma fileBytes_splice {l l' : List ℕ} {size offset n : ℕ} {input : Bytes} (hoff : offset ≤ size)
    (hwin : ∀ j < n, v'.data (fileAddr fs l' (offset + j)) = input j)
    (hother : ∀ i < size, i < offset ∨ offset + n ≤ i →
      v'.data (fileAddr fs l' i) = v.data (fileAddr fs l i)) :
    fileBytes fs v' l' (max size (offset + n)) =
      splice (fileBytes fs v l size) offset (Bytes.slice input 0 n) := by
  refine List.ext_getElem? fun i => ?_
  have hlen : ((fileBytes fs v l size).take offset).length = offset := by
    rw [List.length_take, length_fileBytes, Nat.min_eq_left hoff]
  rcases Nat.lt_or_ge i offset with hi | hi
  · rw [splice, List.append_assoc, List.getElem?_append_left (by omega),
      List.getElem?_take_of_lt hi,
      getElem?_fileBytes (by omega), getElem?_fileBytes (by omega), hother i (by omega) (.inl hi)]
  · obtain ⟨j, rfl⟩ := Nat.exists_eq_add_of_le hi
    rw [splice, List.append_assoc, List.getElem?_append_right (by omega), hlen,
      Nat.add_sub_cancel_left]
    rcases Nat.lt_or_ge j n with hj | hj
    · rw [List.getElem?_append_left (by simpa using hj), Bytes.getElem?_slice hj,
        getElem?_fileBytes (by omega), hwin j hj, Nat.zero_add]
    · rw [List.getElem?_append_right (by simpa using hj), Bytes.length_slice, List.getElem?_drop]
      have hidx : offset + n + (j - n) = offset + j := by omega
      rw [hidx]
      rcases Nat.lt_or_ge (offset + j) size with hs | hs
      · rw [getElem?_fileBytes (by omega), getElem?_fileBytes hs, hother _ hs (.inr (by omega))]
      · rw [List.getElem?_eq_none (by rw [length_fileBytes]; omega),
          List.getElem?_eq_none (by rw [length_fileBytes]; omega)]

/-! ## What a write leaves alone -/

/-- A byte of a cluster that a write has no business with. -/
lemma FileWritten.data_other {node first offset n : ℕ} {l new : List ℕ} {input : Bytes}
    (hl : Layout fs) (h : FileWritten fs v v' node l new first offset n input) {i : ℕ}
    (hout : ∀ c ∈ l ++ new, ¬InCluster fs c i)
    (hslot : i < slotAddr fs (v.nodes node) ∨ slotAddr fs (v.nodes node) + 32 ≤ i) :
    v'.data i = v.data i := by
  obtain ⟨d, hdata, -, hother⟩ := h.data
  rw [hdata, deSetClusterSize_of_lt (by omega)]
  refine hother i (fun c hc => hout c (List.mem_append_right _ hc)) fun j hj heq => ?_
  obtain ⟨c, hc, hin⟩ :=
    inCluster_fileAddr hl (lt_of_lt_of_le (Nat.add_lt_add_left hj offset) h.cover)
  exact hout c hc (heq ▸ hin)

/-- A written cluster belongs to no other file or directory. -/
lemma FileWritten.not_owned {node first offset n a : ℕ} {new : List ℕ} {input : Bytes}
    (h : FileWritten fs v v' node (C.chain (.file a)) new first offset n input) (hok : Ok fs v C)
    (ha : .file a ∈ C.objs) {o : Obj} (ho : o ∈ C.objs) (hne : o ≠ .file a) {c : ℕ}
    (hc : c ∈ C.chain (.file a) ++ new) : c ∉ C.chain o := by
  intro hco
  rcases List.mem_append.mp hc with hc | hc
  · exact hok.disjoint _ ha o ho hne.symm c hc hco
  · exact (hok.chain_mem ho hco).2 (h.free c hc)

/-- The first cluster of a file that has been written is in range. -/
lemma FileWritten.first_lt {node first offset n : ℕ} {l new : List ℕ} {input : Bytes}
    (h : FileWritten fs v v' node l new first offset n input) (hl : Layout fs) :
    first < 2 ^ 32 := by
  have hcl := hl.clusters
  unfold fat32Eoc at hcl
  cases hcons : l ++ new with
  | nil => exact absurd hcons h.nonempty
  | cons c l =>
    have hchain := h.chain
    rw [hcons] at hchain
    have := hchain.2.1.2
    rw [hchain.1] at this
    omega

/-- The catalogue after a write. -/
lemma FileWritten.ok {node first offset n a : ℕ} {new : List ℕ} {input : Bytes} (hl : Layout fs)
    (h : FileWritten fs v v' node (C.chain (.file a)) new first offset n input) (hok : Ok fs v C)
    (ha : .file a ∈ C.objs) (haddr : slotAddr fs (v.nodes node) = a)
    (hcover : (v.nodes node).size ≤ (C.chain (.file a)).length * clusterSize fs)
    (hmax : max (v.nodes node).size (offset + n) < 2 ^ 32) :
    Ok fs v' { C with chain := Function.update C.chain (.file a) (C.chain (.file a) ++ new) } := by
  obtain ⟨d, hdata, -, hother⟩ := h.data
  have hrange : ∀ c ∈ C.chain (.file a) ++ new, InRange fs c := fun c hc => h.chain.inside_of_mem hc
  rw [haddr] at hdata
  refine hok.rewrite hl ha (fun o ho hne c hc => ?_) (.inr ⟨h.nonempty, h.chain⟩)
    (h.first_lt hl) hmax ?_
    (fun o ho hne c hc => h.not_owned hok ha ho hne hc) hdata fun i hi => ?_
  · exact h.fat c (fun hc' => h.not_owned hok ha ho hne (List.mem_append_left _ hc') hc)
      fun hc' => h.not_owned hok ha ho hne (List.mem_append_right _ hc') hc
  · have := h.cover
    rw [List.length_append, Nat.add_mul] at this ⊢
    omega
  · -- a byte of a directory is in none of the clusters written
    have hnot : ∀ c ∈ C.chain (.file a) ++ new, ¬InCluster fs c i := by
      intro c hc hin
      obtain ⟨d, hd, hcd⟩ := hok.inDir_unique hi hin (hrange c hc)
      exact h.not_owned hok ha hd (by simp) hc hcd
    refine hother i (fun c hc => hnot c (List.mem_append_right _ hc)) fun j hj heq => ?_
    obtain ⟨c, hc, hin⟩ :=
      inCluster_fileAddr hl (lt_of_lt_of_le (Nat.add_lt_add_left hj offset) h.cover)
    exact hnot c hc (heq ▸ hin)

/-! ## One call -/

/-- A call on the node of a file. -/
inductive FileOp where
  | read (offset size : ℕ) (out : Bytes)
  | write (offset size : ℕ) (input : Bytes)

/-- Run a call: the return value and the caller's buffer. -/
def FileOp.exec (node : ℕ) : FileOp → Program Fat32State (ℤ × Bytes)
  | .read offset size out => fat32Read node offset size out
  | .write offset size input => (·, input) <$> fat32Write node offset size input

/-- The calls in question: a write starts inside the file or at its end, and the file stays below
`2 ^ 32 - 512` bytes, be it because of the size of the write or because the volume is full
before. -/
def FileOp.Allowed (fs : Fat32Fs) (v : Volume) (node : ℕ) : FileOp → Prop
  | .read _ size _ => size < 2 ^ 32
  | .write offset size _ => size < 2 ^ 32 ∧ offset ≤ (v.nodes node).size ∧
    ∀ l, FileChain fs v.fat (v.nodes node).inode l →
      min (offset + size) ((l.length + freeCount fs v) * clusterSize fs) < 2 ^ 32 - 512

/-- The number of bytes to transfer is an `int`. -/
def FileOp.Short (v : Volume) (node : ℕ) : FileOp → Prop
  | .read offset size _ => min size ((v.nodes node).size - offset) < 2 ^ 31
  | .write _ size _ => size < 2 ^ 31

/-- What a call does to a file as an array of bytes, with its return value and the caller's buffer.
A write may fall short when the volume is `full` after it. -/
def FileOp.OnArray (full : Prop) (arr : List UInt8) : FileOp → ℤ × Bytes → List UInt8 → Prop
  | .read offset size out, r, arr' =>
    let piece := (arr.drop offset).take size
    arr' = arr ∧ r = ((piece.length : ℤ), Bytes.blit out 0 (Bytes.ofList piece) piece.length)
  | .write offset size input, r, arr' =>
    ∃ n ≤ size, arr' = splice arr offset (Bytes.slice input 0 n) ∧
      (n = size ∧ r.1 = size ∨ n < size ∧ full ∧ (r.1 = n ∨ n = 0 ∧ r.1 ≤ 0))

/-- All files but the one with the entry at `a` keep their entries and their bytes. -/
def OthersKept (fs : Fat32Fs) (v v' : Volume) (a : ℕ) : Prop :=
  ∀ b, FileAt fs v b → b ≠ a → (∀ i < 32, v'.data (b + i) = v.data (b + i)) ∧
    ∀ arr, Holds fs v b arr → Holds fs v' b arr

/-- The state of a run: the volume has a catalogue, and the node is that of one of its files. -/
structure FileInv (fs : Fat32Fs) (v : Volume) (node a : ℕ) : Prop where
  ok : ∃ C, Ok fs v C ∧ .file a ∈ C.objs
  nodeOf : NodeOf fs v node a
  small : (v.nodes node).size < 2 ^ 32 - 512

variable {node a : ℕ} {arr : List UInt8}

/-- A file has one array of bytes. -/
lemma Holds.eq (hl : Layout fs) (h : Holds fs v a arr) {l : List ℕ}
    (hchain : FileChain fs v.fat (deCluster v.data a) l) :
    arr = fileBytes fs v l (deSize v.data a) := by
  obtain ⟨l', hchain', rfl⟩ := h
  rw [FileChain.unique hl hchain hchain']

/-- A call of `fat32_read` returns a piece of the array. -/
lemma wp_readOp (hl : Layout fs) (h : FileInv fs v node a) (harr : Holds fs v a arr)
    {offset size : ℕ} {out : Bytes} (hshort : (FileOp.read offset size out).Short v node) :
    (fat32View fs).wp (fat32Read node offset size out) (fun r v' => v' = v ∧
      (FileOp.read offset size out).OnArray (Full fs v') arr r arr) v := by
  obtain ⟨⟨C, hok, ha⟩, hnode, hsmall⟩ := h
  obtain ⟨-, -, hchain, hcover⟩ := hok.files a ha
  obtain rfl := harr.eq hl hchain
  have hread : (fat32View fs).wp (fat32Read node offset size out) _ v :=
    wp_read hl hnode.file hnode.fs_eq (hnode.inode ▸ hchain) (hnode.size ▸ hcover) hsmall.le
  refine View.wp_mono hread ?_
  rintro r v ⟨rfl, rfl⟩
  have hlen :
    (((fileBytes fs v (C.chain (.file a)) (deSize v.data a)).drop offset).take size).length =
      min size ((v.nodes node).size - offset) := by
    rw [List.length_take, List.length_drop, length_fileBytes, hnode.size]
  refine ⟨rfl, rfl, ?_⟩
  simp only [hlen, Prod.mk.injEq]
  refine ⟨int32_of_lt hshort, Bytes.blit_congr fun i hi => ?_⟩
  rw [Bytes.ofList, List.getD_eq_getElem?_getD, List.getElem?_take_of_lt (by omega),
    List.getElem?_drop, getElem?_fileBytes (by rw [← hnode.size]; omega), Option.getD_some]

/-! ## Writing -/

section Written

variable {first offset n : ℕ} {new : List ℕ} {input : Bytes}

/-- The bytes of the file's own entry are in none of the clusters that a write has to do with. -/
lemma FileWritten.slot_apart
    (h : FileWritten fs v v' node (C.chain (.file a)) new first offset n input) (hl : Layout fs)
    (hok : Ok fs v C) (ha : .file a ∈ C.objs) {b c i : ℕ} (hb : C.IsSlot fs b)
    (hc : c ∈ C.chain (.file a) ++ new) (hin : InCluster fs c i) : i < b ∨ b + 32 ≤ i := by
  by_contra hnot
  obtain ⟨k, rfl⟩ := Nat.exists_eq_add_of_le (show b ≤ i by omega)
  have hdir := hb.inDir hl (show k < 32 by omega)
  obtain ⟨d, hd, hcd⟩ := hok.inDir_unique hdir hin (h.chain.inside_of_mem hc)
  exact h.not_owned hok ha hd (by simp) hc hcd

/-- The bytes of the file after a write. -/
lemma FileWritten.bytes
    (h : FileWritten fs v v' node (C.chain (.file a)) new first offset n input) (hl : Layout fs)
    (hok : Ok fs v C) (ha : .file a ∈ C.objs) (hnode : NodeOf fs v node a)
    (hoffset : offset ≤ (v.nodes node).size) :
    fileBytes fs v' (C.chain (.file a) ++ new) (max (v.nodes node).size (offset + n)) =
      splice (fileBytes fs v (C.chain (.file a)) (v.nodes node).size) offset
        (Bytes.slice input 0 n) := by
  obtain ⟨hslot, -, -, hcover⟩ := hok.files a ha
  rw [← hnode.size] at hcover
  obtain ⟨d, hdata, hwin, hother⟩ := h.data
  rw [hnode.addr] at hdata
  have hrange : ∀ c ∈ C.chain (.file a) ++ new, InRange fs c := fun c hc => h.chain.inside_of_mem hc
  have hlen : (C.chain (.file a)).length * clusterSize fs ≤
      (C.chain (.file a) ++ new).length * clusterSize fs := by
    rw [List.length_append]
    exact Nat.mul_le_mul_right _ (Nat.le_add_right _ _)
  -- the entry is elsewhere, so bringing it up to date changes no byte of the file
  have hval : ∀ q < (C.chain (.file a) ++ new).length * clusterSize fs,
      v'.data (fileAddr fs (C.chain (.file a) ++ new) q) =
        d (fileAddr fs (C.chain (.file a) ++ new) q) := by
    intro q hq
    obtain ⟨c, hc, hin⟩ := inCluster_fileAddr hl hq
    have := h.slot_apart hl hok ha hslot hc hin
    rw [hdata, deSetClusterSize_of_lt (by omega)]
  refine fileBytes_splice hoffset (fun j hj => ?_) (fun i hi hout => ?_)
  · rw [hval _ (by have := h.cover; omega)]
    exact hwin j hj
  · have hi' : i < (C.chain (.file a)).length * clusterSize fs := by omega
    rw [hval i (by omega)]
    have hold := hother (fileAddr fs (C.chain (.file a) ++ new) i) (fun c hc hin => ?_)
      fun j hj heq => ?_
    · rw [hold, fileAddr_append _ hi']
    · rw [fileAddr_append _ hi'] at hin
      obtain ⟨c', hc', hin'⟩ := inCluster_fileAddr hl hi'
      obtain rfl := InCluster.unique (hrange c (List.mem_append_right _ hc)).1
        (hrange c' (List.mem_append_left _ hc')).1 hin hin'
      exact (hok.chain_mem ha hc').2 (h.free c hc)
    · have hq := fileAddr_inj hl hrange (ChainAt.nodup hl h.chain) (by omega)
        (by have := h.cover; omega) heq
      omega

/-- The node and the entry agree after a write. -/
lemma FileWritten.nodeOf
    (h : FileWritten fs v v' node (C.chain (.file a)) new first offset n input) (hl : Layout fs)
    (hnode : NodeOf fs v node a) (hmax : max (v.nodes node).size (offset + n) < 2 ^ 32) :
    NodeOf fs v' node a := by
  obtain ⟨d, hdata, -, -⟩ := h.data
  rw [hnode.addr] at hdata
  have hnode' : v'.nodes node =
      { v.nodes node with inode := first, size := max (v.nodes node).size (offset + n) } := by
    rw [h.nodes, Function.update_self]
  refine ⟨?_, ?_, ?_, ?_, ?_, ?_⟩ <;> rw [hnode']
  · exact hnode.file
  · exact hnode.fs_eq
  · exact ⟨hnode.slot.dirent, hnode.slot.lba, hnode.slot.off⟩
  · exact hnode.addr
  · rw [hdata, deCluster_deSetClusterSize (h.first_lt hl)]
  · rw [hdata, deSize_deSetClusterSize hmax]

/-- A write leaves the other files alone. -/
lemma FileWritten.othersKept
    (h : FileWritten fs v v' node (C.chain (.file a)) new first offset n input) (hl : Layout fs)
    (hok : Ok fs v C) (ha : .file a ∈ C.objs) (haddr : slotAddr fs (v.nodes node) = a) :
    OthersKept fs v v' a := by
  intro b hb hne
  have hb' := hok.of_fileAt hl hb
  have hne' : Obj.file b ≠ .file a := by simpa using hne
  obtain ⟨hslot, -, hchain, hcover⟩ := hok.files b hb'
  have hslota := (hok.files a ha).1
  have hentry : ∀ i < 32, v'.data (b + i) = v.data (b + i) := by
    intro i hi
    have := Fat32.slot_apart hslot.dvd hslota.dvd hne
    refine h.data_other hl (fun c hc hin => ?_) (by rw [haddr]; omega)
    have := h.slot_apart hl hok ha hslot hc hin
    omega
  refine ⟨hentry, fun arr harr => ?_⟩
  obtain ⟨-, -, hcluster, hsize, -⟩ := entry_congr hentry
  obtain rfl := harr.eq hl hchain
  refine ⟨C.chain (.file b), ?_, ?_⟩
  · rw [hcluster]
    refine hchain.congr fun c hc => h.fat c (fun hc' => ?_) fun hc' => ?_
    · exact hok.disjoint _ hb' _ ha hne' c hc hc'
    · exact h.not_owned hok ha hb' hne' (List.mem_append_right _ hc') hc
  · rw [hsize]
    refine (fileBytes_congr fun i hi => ?_).symm
    obtain ⟨c, hc, hin⟩ := inCluster_fileAddr hl (lt_of_lt_of_le hi hcover)
    have hrange := (hok.chain_mem hb' hc).1
    refine h.data_other hl (fun c' hc' hin' => ?_) ?_
    · obtain rfl := InCluster.unique hrange.1 (h.chain.inside_of_mem hc').1 hin hin'
      exact h.not_owned hok ha hb' hne' hc' hc
    · rw [haddr]
      by_contra hnot
      obtain ⟨k, hk⟩ := Nat.exists_eq_add_of_le
        (show a ≤ fileAddr fs (C.chain (.file b)) i by omega)
      rw [hk] at hin
      obtain ⟨d, hd, hcd⟩ := hok.inDir_unique (hslota.inDir hl (show k < 32 by omega)) hin hrange
      exact hok.disjoint _ hb' _ hd (by simp) c hc hcd

end Written

/-- A call of `fat32_write` writes the first bytes of its buffer over the array. -/
lemma wp_writeOp (hl : Layout fs) (h : FileInv fs v node a) (harr : Holds fs v a arr)
    {offset size : ℕ} {input : Bytes}
    (hallowed : (FileOp.write offset size input).Allowed fs v node)
    (hshort : (FileOp.write offset size input).Short v node) :
    (fat32View fs).wp (fat32Write node offset size input) (fun r v' =>
      FileInv fs v' node a ∧ OthersKept fs v v' a ∧ ∃ arr', Holds fs v' a arr' ∧
      (FileOp.write offset size input).OnArray (Full fs v') arr (r, input) arr') v := by
  obtain ⟨⟨C, hok, ha⟩, hnode, hsmall⟩ := id h
  obtain ⟨hwidth, hoffset, hfits⟩ := hallowed
  obtain ⟨-, -, hchain, hcover⟩ := hok.files a ha
  have hkept : OthersKept fs v v a := fun _ _ _ => ⟨fun _ _ => rfl, fun _ => id⟩
  rcases Nat.eq_zero_or_pos size with rfl | hpos
  · refine View.wp_get fun s _ hs => ?_
    have hnodes : s.nodePool = v.nodes := congrArg Volume.nodes hs
    simp only [hnodes, hnode.file, VfsType.isFile, Bool.not_true, Bool.false_eq_true, if_false,
      if_true]
    exact View.wp_pure ⟨h, hkept, arr, harr, 0, le_rfl, (splice_nil arr offset).symm,
      .inl ⟨rfl, rfl⟩⟩
  rw [← hnode.inode] at hchain
  rw [← hnode.size] at hcover
  have hwrite := wp_write hl input hnode.file hnode.fs_eq hnode.slot hchain hcover hoffset hpos
    (by omega) (hfits _ hchain).le
  refine View.wp_mono hwrite ?_
  rintro r v' (⟨rfl, hfull, hr⟩ | ⟨new, first, n, hn, hle, hfull, rfl, hw⟩)
  · refine ⟨h, hkept, arr, harr, 0, Nat.zero_le _, (splice_nil arr offset).symm,
      .inr ⟨hpos, hfull, .inr ⟨rfl, ?_⟩⟩⟩
    rcases hr with rfl | rfl <;> simp
  · -- the file has grown by clusters that were free
    have hnew : new.length ≤ freeCount fs v := by
      refine length_le_freeCount (List.nodup_append.mp (ChainAt.nodup hl hw.chain)).2.1
        (fun c hc => hw.chain.inside_of_mem (List.mem_append_right _ hc)) hw.free
    have hend : offset + n < 2 ^ 32 - 512 := by
      refine lt_of_le_of_lt (le_min (Nat.add_le_add_left hle _) (hw.cover.trans ?_))
        (hfits _ hchain)
      rw [List.length_append]
      exact Nat.mul_le_mul_right _ (Nat.add_le_add_left hnew _)
    have hmax : max (v.nodes node).size (offset + n) < 2 ^ 32 - 512 := max_lt hsmall hend
    have hnode' := hw.nodeOf hl hnode (by omega)
    refine ⟨⟨⟨_, hw.ok hl hok ha hnode.addr hcover (by omega), ha⟩, hnode', ?_⟩,
      hw.othersKept hl hok ha hnode.addr, splice arr offset (Bytes.slice input 0 n),
        ?_, n, hle, rfl,
      ?_⟩
    · rw [hw.nodes, Function.update_self]
      exact hmax
    · have hsize : deSize v'.data a = max (v.nodes node).size (offset + n) := by
        rw [← hnode'.size, hw.nodes, Function.update_self]
      have hinode : deCluster v'.data a = first := by
        rw [← hnode'.inode, hw.nodes, Function.update_self]
      rw [hnode.inode] at hchain
      refine ⟨C.chain (.file a) ++ new, hinode ▸ .inr ⟨hw.nonempty, hw.chain⟩, ?_⟩
      rw [hsize, hw.bytes hl hok ha hnode hoffset, hnode.size, harr.eq hl hchain]
    · have hshort' : size < 2 ^ 31 := hshort
      rw [int32_of_lt (by omega)]
      rcases hle.lt_or_eq with hlt | rfl
      · exact .inr ⟨hlt, hfull hlt, .inl rfl⟩
      · exact .inl ⟨rfl, rfl⟩

/-! ## Runs -/

/-- In a run of calls on the node of the file with the entry at `a`, each of them allowed and as `P`
says, every call does to the file what it does to the array, the other files keep their bytes, and
node and entry agree. -/
def RunsAsArray (P : Volume → FileOp → Prop) (fs : Fat32Fs) (node a : ℕ) :
    List FileOp → Volume → List UInt8 → Prop
  | [], _, _ => True
  | op :: ops, v, arr => op.Allowed fs v node → P v op →
    (fat32View fs).wp (op.exec node) (fun r v' => ∃ arr', op.OnArray (Full fs v') arr r arr' ∧
      Holds fs v' a arr' ∧ NodeOf fs v' node a ∧ OthersKept fs v v' a ∧
      RunsAsArray P fs node a ops v' arr') v

/-- One call. -/
lemma wp_exec (hl : Layout fs) (h : FileInv fs v node a) (harr : Holds fs v a arr) {op : FileOp}
    (hallowed : op.Allowed fs v node) (hshort : op.Short v node) :
    (fat32View fs).wp (op.exec node) (fun r v' => FileInv fs v' node a ∧ OthersKept fs v v' a ∧
      ∃ arr', Holds fs v' a arr' ∧ op.OnArray (Full fs v') arr r arr') v := by
  cases op with
  | read offset size out =>
    refine View.wp_mono (wp_readOp hl h harr hshort) ?_
    rintro r v ⟨rfl, hr⟩
    exact ⟨h, fun _ _ _ => ⟨fun _ _ => rfl, fun _ => id⟩, arr, harr, hr⟩
  | write offset size input => exact View.wp_map (wp_writeOp hl h harr hallowed hshort)

/-- A file of a well-formed volume behaves as an array of bytes in every run of calls that each
transfer fewer than `2 ^ 31` bytes. -/
theorem runsAsArray (hl : Layout fs) (hwf : WellFormed fs v) (ha : FileAt fs v a)
    (hnode : NodeOf fs v node a) (hsmall : (v.nodes node).size < 2 ^ 32 - 512)
    (harr : Holds fs v a arr) (ops : List FileOp) :
    RunsAsArray (fun v op => op.Short v node) fs node a ops v arr := by
  have hinv : FileInv fs v node a :=
    ⟨⟨_, hwf.ok hl, (hwf.ok hl).of_fileAt hl ha⟩, hnode, hsmall⟩
  clear hwf ha hnode hsmall
  induction ops generalizing v arr with
  | nil => trivial
  | cons op ops ih =>
    intro hallowed hshort
    refine View.wp_mono (wp_exec hl hinv harr hallowed hshort) ?_
    rintro r v' ⟨hinv', hkept, arr', harr', hr⟩
    exact ⟨arr', hr, harr', hinv'.nodeOf, hkept, ih harr' hinv'⟩

/-! ## A file of `2 ^ 31` bytes -/

/-- A volume with clusters of 64 KiB. -/
def longFs : Fat32Fs where
  id := 0
  dev := ⟨3, 0⟩
  partLba := 0
  sectorsPerCluster := 128
  reservedSectors := 1
  numFats := 1
  fatSize := 400
  rootCluster := 2
  fatStartLba := 1
  dataStartLba := 401
  totalSectors := 5120401
  totalClusters := 40000

/-- Its table: the root directory on cluster 2, the file on the next 32768. -/
def longFat : ℕ → ℕ := chainFat (fun c => if c = 2 then fat32Eoc else 0) 3 32768 32768

/-- Its data area: the entry of the file. -/
def longData : Bytes := newEntry [70, 32, 32, 32, 32, 32, 32, 32, 32, 32, 32] 3 (2 ^ 31)

/-- The drive with that table and that data area. -/
def longDisk : Bytes := fun i =>
  if i < 401 * 512 then Bytes.ofNat (longFat ((i - 512) / 4)) ((i - 512) % 4)
  else longData (i - 401 * 512)

/-- The driver with a node for the file. -/
def longState : Fat32State where
  blk := ⟨fun _ => longDisk, fun _ => false, 0, []⟩
  fatBuf := Bytes.zeros
  cachedFatDev := ⟨255, 255⟩
  cachedFatLba := 0
  fsPoolUsed := 1
  nextFreeHint := fun _ => 2
  nodePool := fun _ => ⟨[70], .file, 2 ^ 31, 3, none, ⟨longFs, true, 401, 0⟩⟩
  nodePoolUsed := 1
  trace := []

/-- The volume in that state. -/
def longVolume : Volume := (fat32View longFs).view longState

lemma longFs_layout : Layout longFs := by
  constructor <;> decide

lemma longFat_lt (c : ℕ) : longFat c < 2 ^ 28 := by
  simp only [longFat, chainFat, fat32Eoc]
  split_ifs <;> omega

lemma longVolume_fat (c : ℕ) : longVolume.fat c = longFat c := by
  change (if c < 40000 + 2 then entryOn longFs longDisk 0 c else 0) = longFat c
  split_ifs with hc
  · have hentry : Bytes.le32 longDisk (entryAddr longFs 0 c) =
        Bytes.le32 (Bytes.ofNat (longFat c)) 0 := by
      refine Bytes.le32_congr fun i hi => ?_
      have haddr : entryAddr longFs 0 c = 512 + 4 * c := by
        rw [entryAddr, Nat.zero_mul]
        rfl
      have hdiv : (512 + 4 * c + i - 512) / 4 = c := by omega
      have hmod : (512 + 4 * c + i - 512) % 4 = i := by omega
      rw [haddr, longDisk, if_pos (by omega), hdiv, hmod, Nat.zero_add]
    have hlt := longFat_lt c
    rw [entryOn, hentry, Bytes.le32_ofNat, Nat.mod_eq_of_lt (by omega),
      Nat.mod_eq_of_lt (by omega)]
  · have hbase : longFat c = if c = 2 then fat32Eoc else 0 := if_neg (by omega)
    rw [hbase, if_neg (by omega)]

lemma longVolume_data : longVolume.data = longData := by
  have hstart : longFs.dataStartLba * 512 = 401 * 512 := rfl
  funext i
  rw [longVolume, view_data, hstart, Bytes.shift]
  change longDisk (401 * 512 + i) = longData i
  rw [longDisk, if_neg (Nat.not_lt.mpr (Nat.le_add_right _ i)), Nat.add_sub_cancel_left]

/-- The clusters of the file. -/
lemma longVolume_chain : ChainAt longFs longVolume.fat 3 (List.range' 3 32768) := by
  have hrun : ChainAt longFs longFat 3 (List.range' 3 32768) :=
    chainAt_run (by decide) (by decide) (by decide)
  exact hrun.congr fun c _ => longVolume_fat c

/-- The parts of the entry. -/
lemma longData_parts : longData 0 = 70 ∧ deIsDir longData 0 = false ∧ deCluster longData 0 = 3 ∧
    deSize longData 0 = 2 ^ 31 :=
  newEntry_parts _ (by decide) (by decide)

/-- The root directory and the file. -/
def longCatalogue : Catalogue where
  objs := {.dir 2, .file 0}
  chain
    | .dir _ => [2]
    | .file _ => List.range' 3 32768

lemma longVolume_oneFile : OneFile longFs longVolume 3 (2 ^ 31) (List.range' 3 32768) := by
  constructor
  · rfl
  · decide
  · rw [longVolume_fat]
    decide
  · exact .inr ⟨by simp, longVolume_chain⟩
  · exact fun h => absurd (List.mem_range'_1.mp h).1 (by decide)
  · rw [List.length_range']
    decide
  · decide
  · decide
  · exact fun i _ => congrFun longVolume_data i

lemma longVolume_ok : Ok longFs longVolume longCatalogue := longVolume_oneFile.ok longFs_layout

lemma longVolume_file : FileAt longFs longVolume 0 := longVolume_oneFile.fileAt longFs_layout

lemma longVolume_node : NodeOf longFs longVolume 0 0 := by
  obtain ⟨-, -, hcluster, hsize⟩ := longData_parts
  refine ⟨rfl, rfl, ⟨rfl, le_rfl, by decide⟩, rfl, ?_, ?_⟩
  · rw [longVolume_data, hcluster]
    rfl
  · rw [longVolume_data, hsize]
    rfl

lemma longState_sound : Sound longFs longState := by
  refine ⟨fun _ => rfl, fun copy hcopy c _ => ?_, fun hdev => ?_⟩
  · obtain rfl : copy = 0 := Nat.lt_one_iff.mp hcopy
    rfl
  · exact absurd hdev (by decide)

/-- The bytes of the file. -/
def longArray : List UInt8 := fileBytes longFs longVolume (List.range' 3 32768) (2 ^ 31)

lemma longVolume_holds : Holds longFs longVolume 0 longArray := by
  obtain ⟨-, -, hcluster, hsize⟩ := longData_parts
  refine ⟨List.range' 3 32768, ?_, ?_⟩
  · rw [longVolume_data, hcluster]
    exact .inr ⟨by simp, longVolume_chain⟩
  · rw [longVolume_data, hsize]
    rfl

/-- Overwrite three bytes of the file, then read across them. -/
theorem runsAsArray_writeAndRead :
    RunsAsArray (fun v op => op.Short v 0) longFs 0 0
      [.write 5 3 Bytes.zeros, .read 0 16 Bytes.zeros] longVolume longArray ∧
    (FileOp.write 5 3 Bytes.zeros).Allowed longFs longVolume 0 ∧
    (FileOp.write 5 3 Bytes.zeros).Short longVolume 0 := by
  refine ⟨runsAsArray longFs_layout (longVolume_ok.wellFormed longFs_layout) longVolume_file
    longVolume_node ?_ longVolume_holds _, ⟨by decide, ?_, fun l _ => ?_⟩, ?_⟩
  · exact (by decide : 2 ^ 31 < 2 ^ 32 - 512)
  · exact (by decide : 5 ≤ 2 ^ 31)
  · exact lt_of_le_of_lt (min_le_left _ _) (by decide)
  · exact (by decide : 3 < 2 ^ 31)

/-- Reading the whole file transfers all its bytes but returns a negative number. -/
theorem not_runsAsArray_long : ¬ ∀ (fs : Fat32Fs) (v : Volume) (node a : ℕ) (arr : List UInt8)
    (ops : List FileOp), Layout fs → WellFormed fs v → FileAt fs v a → NodeOf fs v node a →
    (v.nodes node).size < 2 ^ 32 - 512 → Holds fs v a arr →
    RunsAsArray (fun _ _ => True) fs node a ops v arr := by
  intro hclaim
  have hrun := hclaim longFs longVolume 0 0 longArray [.read 0 (2 ^ 31) Bytes.zeros] longFs_layout
    (longVolume_ok.wellFormed longFs_layout) longVolume_file longVolume_node
    (show 2 ^ 31 < 2 ^ 32 - 512 by decide) longVolume_holds (show 2 ^ 31 < 2 ^ 32 by decide) trivial
  obtain ⟨r, s, heq, -, arr', ⟨-, hr⟩, -⟩ := hrun longState longState_sound rfl
  have hread : (fat32View longFs).wp (fat32Read 0 0 (2 ^ 31) Bytes.zeros) _ longVolume :=
    wp_read longFs_layout longVolume_node.file longVolume_node.fs_eq
      (.inr ⟨by simp, longVolume_chain⟩) ?_ ?_
  · obtain ⟨r', s', heq', -, -, hr'⟩ := hread longState longState_sound rfl
    obtain rfl : r = r' := congrArg Prod.fst (Option.some.inj (heq.symm.trans heq'))
    have hlen : ((longArray.drop 0).take (2 ^ 31)).length = 2 ^ 31 := by
      rw [List.length_take, List.length_drop, longArray, length_fileBytes]
      rfl
    have hneg := congrArg Prod.fst (hr.symm.trans hr')
    rw [hlen] at hneg
    exact absurd hneg (by decide)
  · rw [List.length_range']
    exact (by decide : 2 ^ 31 ≤ 32768 * (128 * 512))
  · exact (by decide : 2 ^ 31 ≤ 2 ^ 32 - 512)

end Fat32

end CoolFrost

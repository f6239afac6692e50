import CoolFrost.Lib.Tiling
import CoolFrost.Fs.Ext2.Dir

/-!
# ext2: the records of a directory block

A block of a directory is well formed when records cover it from its first byte to its last, each a
multiple of four bytes long and long enough for its name.  The driver changes such a block inside
one record at a time: it splits the record, fills it in, renames it or clears it.  `Covered.replace`
says what becomes of the block when one record is replaced by a few that cover the same bytes; the
other changes are instances of it.
-/

namespace CoolFrost

namespace Ext2

variable {b b' : Bytes} {n off ino : ℕ} {offs l₁ l₂ : List ℕ} {name : List UInt8} {ft : UInt8}

/-- What a record in use says: the inode, its type and its name. -/
structure LiveEntry where
  inode : ℕ
  type : UInt8
  name : List UInt8
deriving DecidableEq

/-- The entry in the record at `off`. -/
def entryAt (b : Bytes) (off : ℕ) : LiveEntry := ⟨deInode b off, deFileType b off, deName b off⟩

/-- The entries in the records at the given offsets, with these; records that are not in use are
left out. -/
def entriesAt (b : Bytes) (offs : List ℕ) : List (ℕ × LiveEntry) :=
  (offs.filter fun off => deInode b off ≠ 0).map fun off => (off, entryAt b off)

/-- The length of the record at `off` is a multiple of 4 and enough for its name. -/
def Proper (b : Bytes) (off : ℕ) : Prop :=
  4 ∣ deRecLen b off ∧ align4 (8 + deNameLen b off) ≤ deRecLen b off

instance (b : Bytes) (off : ℕ) : Decidable (Proper b off) := inferInstanceAs (Decidable (_ ∧ _))

/-- The records at `offs` cover a block of `n` bytes exactly. -/
structure Covered (n : ℕ) (b : Bytes) (offs : List ℕ) : Prop where
  tiles : Tiles id (deRecLen b) 0 offs n
  proper : ∀ off ∈ offs, Proper b off

lemma entriesAt_append : entriesAt b (l₁ ++ l₂) = entriesAt b l₁ ++ entriesAt b l₂ := by
  simp [entriesAt]

lemma entriesAt_cons : entriesAt b (off :: l₂) =
    if deInode b off = 0 then entriesAt b l₂ else (off, entryAt b off) :: entriesAt b l₂ := by
  unfold entriesAt
  split_ifs with h
  · rw [List.filter_cons_of_neg (by simpa using h)]
  · rw [List.filter_cons_of_pos (by simpa using h), List.map_cons]

/-! ## Lengths -/

lemma le_align4 (x : ℕ) : x ≤ align4 x := by
  unfold align4
  omega

lemma dvd_align4 (x : ℕ) : 4 ∣ align4 x := Nat.dvd_mul_left 4 _

lemma align4_lt (x : ℕ) : align4 x < x + 4 := by
  unfold align4
  omega

lemma deNameLen_lt (b : Bytes) (off : ℕ) : deNameLen b off < 256 := (b (off + 6)).toNat_lt

lemma deRecLen_lt (b : Bytes) (off : ℕ) : deRecLen b off < 65536 := Bytes.le16_lt _ _

lemma Proper.le (h : Proper b off) : 8 + deNameLen b off ≤ deRecLen b off :=
  (le_align4 _).trans h.2

lemma Proper.used_le (h : Proper b off) : deUsed b off ≤ deRecLen b off := by
  unfold deUsed
  split_ifs
  · exact h.2
  · exact Nat.zero_le _

lemma deUsed_eq_zero : deUsed b off = 0 ↔ deInode b off = 0 := by
  unfold deUsed
  have := le_align4 (8 + deNameLen b off)
  split_ifs with h
  · exact iff_of_false (by omega) h
  · exact iff_of_true rfl (not_not.mp h)

/-- The bytes to spare behind a proper record. -/
lemma Proper.spare (h : Proper b off) :
    u32sub (deRecLen b off) (deUsed b off) = deRecLen b off - deUsed b off := by
  have hle := h.used_le
  have hlt := deRecLen_lt b off
  unfold u32sub u32
  omega

/-! ## Changes of other records -/

/-- The header of a record does not notice a change elsewhere. -/
lemma header_congr (h : ∀ i, off ≤ i → i < off + 8 → b' i = b i) :
    deInode b' off = deInode b off ∧ deRecLen b' off = deRecLen b off ∧
      deNameLen b' off = deNameLen b off ∧ deFileType b' off = deFileType b off := by
  refine ⟨Bytes.le32_congr fun i hi => ?_, Bytes.le16_congr fun i hi => ?_, ?_, ?_⟩
  · exact h _ (Nat.le_add_right _ _) (by omega)
  · exact h _ (by omega) (by omega)
  · unfold deNameLen
    rw [h _ (by omega) (by omega)]
  · exact h _ (by omega) (by omega)

/-- A record does not notice a change elsewhere. -/
lemma record_congr (hp : Proper b off)
    (h : ∀ i, off ≤ i → i < off + deRecLen b off → b' i = b i) :
    deRecLen b' off = deRecLen b off ∧ Proper b' off ∧ deInode b' off = deInode b off ∧
      entryAt b' off = entryAt b off := by
  have hle := hp.le
  obtain ⟨hino, hlen, hname, htype⟩ := header_congr fun i hlo (hhi : i < off + 8) =>
    h i hlo (by omega)
  refine ⟨hlen, ?_, hino, ?_⟩
  · rw [Proper, hlen, hname]
    exact hp
  · have hslice : deName b' off = deName b off := by
      unfold deName
      rw [hname]
      exact Bytes.slice_congr fun i hi => h _ (by omega) (by omega)
    rw [entryAt, hino, htype, hslice]
    rfl

/-- Records that all are as before hold the same entries. -/
lemma entriesAt_congr (hino : ∀ x ∈ offs, deInode b' x = deInode b x)
    (hentry : ∀ x ∈ offs, entryAt b' x = entryAt b x) : entriesAt b' offs = entriesAt b offs := by
  unfold entriesAt
  rw [List.filter_congr fun x hx => by rw [hino x hx]]
  exact List.map_congr_left fun x hx => by rw [hentry x (List.mem_of_mem_filter hx)]

namespace Covered

lemma record_le (h : Covered n b offs) (hoff : off ∈ offs) : off + deRecLen b off ≤ n :=
  (h.tiles.mem_bounds hoff).2

/-- One record is replaced by some that cover the same bytes. -/
lemma replace (h : Covered n b (l₁ ++ off :: l₂)) (b' : Bytes) (m : List ℕ)
    (hout : ∀ i < n, i < off ∨ off + deRecLen b off ≤ i → b' i = b i)
    (htiles : Tiles id (deRecLen b') off m (off + deRecLen b off))
    (hproper : ∀ x ∈ m, Proper b' x) :
    Covered n b' (l₁ ++ m ++ l₂) ∧
      entriesAt b' (l₁ ++ m ++ l₂) = entriesAt b l₁ ++ entriesAt b' m ++ entriesAt b l₂ := by
  obtain ⟨hfront, hback⟩ := Tiles.middle_iff.mp h.tiles
  have hn := h.record_le (List.mem_append_right l₁ List.mem_cons_self)
  -- the other records lie in front of the one that is replaced, or behind it
  have hother : ∀ x, x ∈ l₁ ∨ x ∈ l₂ → deRecLen b' x = deRecLen b x ∧ Proper b' x ∧
      deInode b' x = deInode b x ∧ entryAt b' x = entryAt b x := by
    rintro x (hx | hx)
    · have hbound := (hfront.mem_bounds hx).2
      simp only [id_eq] at hbound
      exact record_congr (h.proper x (List.mem_append_left _ hx)) fun i _ hi =>
        hout i (by omega) (.inl (by omega))
    · have hbound := hback.mem_bounds hx
      simp only [id_eq] at hbound
      exact record_congr (h.proper x (List.mem_append_right _ (List.mem_cons_of_mem _ hx)))
        fun i hlo hi => hout i (by omega) (.inr (by omega))
  refine ⟨⟨?_, fun x hx => ?_⟩, ?_⟩
  · rw [List.append_assoc, Tiles.append_iff]
    refine ⟨off, hfront.congr (fun _ _ => rfl) fun x hx => (hother x (.inl hx)).1, ?_⟩
    rw [Tiles.append_iff]
    exact ⟨_, htiles, hback.congr (fun _ _ => rfl) fun x hx => (hother x (.inr hx)).1⟩
  · rw [List.append_assoc, List.mem_append, List.mem_append] at hx
    rcases hx with hx | hx | hx
    · exact (hother x (.inl hx)).2.1
    · exact hproper x hx
    · exact (hother x (.inr hx)).2.1
  · rw [entriesAt_append, entriesAt_append,
      entriesAt_congr (fun x hx => (hother x (.inl hx)).2.2.1) fun x hx =>
        (hother x (.inl hx)).2.2.2,
      entriesAt_congr (fun x hx => (hother x (.inr hx)).2.2.1) fun x hx =>
        (hother x (.inr hx)).2.2.2]

/-- A block does not notice a change behind its end. -/
lemma congr (h : Covered n b offs) (hb : ∀ i < n, b' i = b i) :
    Covered n b' offs ∧ entriesAt b' offs = entriesAt b offs := by
  have hrec : ∀ x ∈ offs, deRecLen b' x = deRecLen b x ∧ Proper b' x ∧
      deInode b' x = deInode b x ∧ entryAt b' x = entryAt b x := fun x hx =>
    record_congr (h.proper x hx) fun i _ hi => hb i (hi.trans_le (h.record_le hx))
  exact ⟨⟨h.tiles.congr (fun _ _ => rfl) fun x hx => (hrec x hx).1, fun x hx => (hrec x hx).2.1⟩,
    entriesAt_congr (fun x hx => (hrec x hx).2.2.1) fun x hx => (hrec x hx).2.2.2⟩

lemma clip (h : Covered n b offs) :
    Covered n (Bytes.clip n b) offs ∧ entriesAt (Bytes.clip n b) offs = entriesAt b offs :=
  h.congr fun _ hi => Bytes.clip_of_lt hi

end Covered

/-! ## Filling in a record -/

section Fill

variable (b off ino name ft)

lemma fillRecord_of_lt {i : ℕ} (h : i < off) : fillRecord b off ino name ft i = b i := by
  simp only [fillRecord, Bytes.put32, Bytes.put8]
  rw [Bytes.blit_of_not_mem (by omega), Bytes.blit_of_not_mem (by omega),
    Bytes.blit_of_not_mem (by omega), Bytes.blit_of_not_mem (by omega)]

lemma fillRecord_of_ge {i : ℕ} (h : off + 8 + name.length ≤ i) :
    fillRecord b off ino name ft i = b i := by
  simp only [fillRecord, Bytes.put32, Bytes.put8]
  rw [Bytes.blit_of_not_mem (by omega), Bytes.blit_of_not_mem (by omega),
    Bytes.blit_of_not_mem (by omega), Bytes.blit_of_not_mem (by omega)]

lemma deRecLen_fillRecord : deRecLen (fillRecord b off ino name ft) off = deRecLen b off := by
  simp only [fillRecord, Bytes.put32, Bytes.put8, deRecLen]
  rw [Bytes.le16_blit_of_disjoint (by omega), Bytes.le16_blit_of_disjoint (by omega),
    Bytes.le16_blit_of_disjoint (by omega), Bytes.le16_blit_of_disjoint (by omega)]

lemma deInode_fillRecord : deInode (fillRecord b off ino name ft) off = ino % 2 ^ 32 := by
  simp only [fillRecord, Bytes.put8, deInode]
  rw [Bytes.le32_blit_of_disjoint (by omega), Bytes.le32_blit_of_disjoint (by omega),
    Bytes.le32_blit_of_disjoint (by omega), Bytes.le32_put32_self]

lemma deFileType_fillRecord : deFileType (fillRecord b off ino name ft) off = ft := by
  simp only [fillRecord, Bytes.put8, deFileType]
  rw [Bytes.blit_of_not_mem (by omega), Bytes.blit_of_mem (by omega)]

variable {name}

lemma deNameLen_fillRecord (h : name.length ≤ 255) :
    deNameLen (fillRecord b off ino name ft) off = name.length := by
  simp only [fillRecord, Bytes.put8, deNameLen]
  rw [Bytes.blit_of_not_mem (by omega), Bytes.blit_of_not_mem (by omega),
    Bytes.blit_of_mem (by omega), UInt8.toNat_ofNat', Nat.mod_eq_of_lt (by omega)]

lemma deName_fillRecord (h : name.length ≤ 255) :
    deName (fillRecord b off ino name ft) off = name := by
  rw [deName, deNameLen_fillRecord b off ino ft h]
  exact Bytes.slice_blit_ofList _ _ _

/-- The entry that was filled in. -/
lemma entryAt_fillRecord (h : name.length ≤ 255) (hino : ino < 2 ^ 32) :
    entryAt (fillRecord b off ino name ft) off = ⟨ino, ft, name⟩ := by
  rw [entryAt, deInode_fillRecord, deFileType_fillRecord, deName_fillRecord b off ino ft h,
    Nat.mod_eq_of_lt hino]

end Fill

/-! ## The changes that the driver makes -/

/-- An entry goes into a free record, which is used whole. -/
lemma Covered.fill (h : Covered n b (l₁ ++ off :: l₂)) (hname : name.length ≤ 255)
    (hino : 0 < ino ∧ ino < 2 ^ 32) (hfree : deInode b off = 0)
    (hroom : align4 (8 + name.length) ≤ deRecLen b off) :
    Covered n (fillRecord b off ino name ft) (l₁ ++ [off] ++ l₂) ∧
      entriesAt (fillRecord b off ino name ft) (l₁ ++ [off] ++ l₂) =
        entriesAt b (l₁ ++ [off]) ++ (off, ⟨ino, ft, name⟩) :: entriesAt b l₂ := by
  have hproper := h.proper off (List.mem_append_right l₁ List.mem_cons_self)
  have hneed := le_align4 (8 + name.length)
  have hlen := deRecLen_fillRecord b off ino name ft
  have hlive : deInode (fillRecord b off ino name ft) off ≠ 0 := by
    rw [deInode_fillRecord, Nat.mod_eq_of_lt hino.2]
    omega
  obtain ⟨hcov, hentries⟩ := h.replace (fillRecord b off ino name ft) [off]
    (fun i _ hi => hi.elim (fillRecord_of_lt b off ino name ft)
      fun hi => fillRecord_of_ge b off ino name ft (by omega))
    ⟨rfl, by rw [Tiles.nil_iff, hlen]⟩ fun x hx => by
      rw [List.mem_singleton.mp hx, Proper, hlen, deNameLen_fillRecord b off ino ft hname]
      exact ⟨hproper.1, hroom⟩
  refine ⟨hcov, ?_⟩
  rw [hentries, entriesAt_append, entriesAt_cons, entriesAt_cons, if_neg hlive, if_pos hfree,
    entryAt_fillRecord b off ino ft hname hino.2]
  simp [entriesAt]

/-- The record at `off` is cut off after `used` bytes. -/
def cutRecord (b : Bytes) (off used : ℕ) : Bytes :=
  Bytes.put16 (Bytes.put16 b (off + 4) used) (off + used + 4) (deRecLen b off - used)

section Cut

variable {used : ℕ}

lemma cutRecord_of_ne {i : ℕ} (h : i < off + 4 ∨ off + 6 ≤ i)
    (h' : i < off + used + 4 ∨ off + used + 6 ≤ i) : cutRecord b off used i = b i := by
  rw [cutRecord, Bytes.put16, Bytes.blit_of_not_mem (by omega), Bytes.put16,
    Bytes.blit_of_not_mem (by omega)]

lemma deRecLen_cutRecord (h : 8 ≤ used) (hlt : used < 65536) :
    deRecLen (cutRecord b off used) off = used := by
  rw [cutRecord, deRecLen, Bytes.put16, Bytes.le16_blit_of_disjoint (by omega),
    Bytes.le16_put16_self, Nat.mod_eq_of_lt hlt]

lemma deRecLen_cutRecord_rest :
    deRecLen (cutRecord b off used) (off + used) = deRecLen b off - used := by
  have hlt := deRecLen_lt b off
  rw [cutRecord, deRecLen, Bytes.le16_put16_self, Nat.mod_eq_of_lt (by omega)]

/-- The record in front is as it was, but for its length. -/
lemma front_of_cut (h : 8 + deNameLen b off ≤ used) (hlt : used < 65536)
    (hfront : ∀ i < off + used, b' i = cutRecord b off used i) :
    deRecLen b' off = used ∧ deNameLen b' off = deNameLen b off ∧ deInode b' off = deInode b off ∧
      entryAt b' off = entryAt b off := by
  have hsame : ∀ i < off + used, (i < off + 4 ∨ off + 6 ≤ i) → b' i = b i := fun i hi hne => by
    rw [hfront i hi, cutRecord_of_ne hne (by omega)]
  have hname : deNameLen b' off = deNameLen b off := by
    unfold deNameLen
    rw [hsame _ (by omega) (by omega)]
  have hino : deInode b' off = deInode b off := Bytes.le32_congr fun i hi =>
    hsame _ (by omega) (by omega)
  refine ⟨?_, hname, hino, ?_⟩
  · have hcut : deRecLen b' off = deRecLen (cutRecord b off used) off :=
      Bytes.le16_congr fun i hi => hfront _ (by omega)
    rw [hcut]
    exact deRecLen_cutRecord (by omega) hlt
  · have htype : deFileType b' off = deFileType b off := hsame _ (by omega) (by omega)
    have hslice : deName b' off = deName b off := by
      unfold deName
      rw [hname]
      exact Bytes.slice_congr fun i hi => hsame _ (by omega) (by omega)
    rw [entryAt, hino, htype, hslice]
    rfl

end Cut

/-- An entry goes into the slack behind a record in use. -/
lemma Covered.split (h : Covered n b (l₁ ++ off :: l₂)) (hname : name.length ≤ 255)
    (hino : 0 < ino ∧ ino < 2 ^ 32) (hlive : deInode b off ≠ 0)
    (hroom : align4 (8 + name.length) ≤ deRecLen b off - align4 (8 + deNameLen b off)) {used : ℕ}
    (hused : used = align4 (8 + deNameLen b off)) :
    Covered n (fillRecord (cutRecord b off used) (off + used) ino name ft)
        (l₁ ++ [off, off + used] ++ l₂) ∧
      entriesAt (fillRecord (cutRecord b off used) (off + used) ino name ft)
          (l₁ ++ [off, off + used] ++ l₂) =
        entriesAt b (l₁ ++ [off]) ++ (off + used, ⟨ino, ft, name⟩) :: entriesAt b l₂ := by
  have hproper := h.proper off (List.mem_append_right l₁ List.mem_cons_self)
  have hneed := le_align4 (8 + name.length)
  have hneed' := le_align4 (8 + deNameLen b off)
  have hlt := deRecLen_lt b off
  have hle := hproper.2
  rw [← hused] at hroom hneed' hle
  obtain ⟨b', hb'⟩ : ∃ b', b' = fillRecord (cutRecord b off used) (off + used)
    ino name ft := ⟨_, rfl⟩
  rw [← hb']
  -- the record in front
  have hfront : ∀ i < off + used, b' i = cutRecord b off used i := fun i hi => by
    rw [hb', fillRecord_of_lt _ _ _ _ _ hi]
  obtain ⟨hlen, hnameLen, hinode, hentry⟩ := front_of_cut hneed' (by omega) hfront
  -- the record behind it
  have hlenRest : deRecLen b' (off + used) = deRecLen b off - used := by
    rw [hb', deRecLen_fillRecord, deRecLen_cutRecord_rest]
  have hnameRest : deNameLen b' (off + used) = name.length := by
    rw [hb', deNameLen_fillRecord _ _ _ _ hname]
  have hinoRest : deInode b' (off + used) ≠ 0 := by
    rw [hb', deInode_fillRecord, Nat.mod_eq_of_lt hino.2]
    omega
  have hnew : entryAt b' (off + used) = ⟨ino, ft, name⟩ := by
    rw [hb', entryAt_fillRecord _ _ _ _ hname hino.2]
  obtain ⟨hcov, hentries⟩ := h.replace b' [off, off + used]
    (fun i _ hi => by
      rcases hi with hi | hi
      · rw [hfront i (by omega), cutRecord_of_ne (by omega) (by omega)]
      · rw [hb', fillRecord_of_ge _ _ _ _ _ (by omega), cutRecord_of_ne (by omega) (by omega)])
    ⟨rfl, by rw [hlen]; rfl, by rw [Tiles.nil_iff, hlen, hlenRest]; omega⟩ fun x hx => by
      rcases List.mem_cons.mp hx with rfl | hx
      · rw [Proper, hlen, hnameLen, hused]
        exact ⟨dvd_align4 _, le_rfl⟩
      · rw [List.mem_singleton.mp hx, Proper, hlenRest, hnameRest]
        exact ⟨Nat.dvd_sub hproper.1 (hused ▸ dvd_align4 _), hroom⟩
  refine ⟨hcov, ?_⟩
  rw [hentries, entriesAt_append, entriesAt_cons, entriesAt_cons, entriesAt_cons, if_neg hinoRest,
    hinode, if_neg hlive, if_neg hlive, hentry, hnew]
  simp [entriesAt]

/-- An entry goes into a free record, or into the slack behind a record in use. -/
lemma Covered.place (h : Covered n b (l₁ ++ off :: l₂)) (hname : name.length ≤ 255)
    (hino : 0 < ino ∧ ino < 2 ^ 32)
    (hroom : align4 (8 + name.length) ≤ u32sub (deRecLen b off) (deUsed b off)) :
    ∃ m off', Covered n (placeRecord b off ino name ft) (l₁ ++ m ++ l₂) ∧
      entriesAt (placeRecord b off ino name ft) (l₁ ++ m ++ l₂) =
        entriesAt b (l₁ ++ [off]) ++ (off', ⟨ino, ft, name⟩) :: entriesAt b l₂ := by
  have hproper := h.proper off (List.mem_append_right l₁ List.mem_cons_self)
  rw [hproper.spare] at hroom
  by_cases hfree : deInode b off = 0
  · have hzero := deUsed_eq_zero.mpr hfree
    rw [hzero, Nat.sub_zero] at hroom
    have hb' : placeRecord b off ino name ft = fillRecord b off ino name ft := if_pos hzero
    rw [hb']
    exact ⟨[off], off, h.fill hname hino hfree hroom⟩
  · have hused : deUsed b off = align4 (8 + deNameLen b off) := if_pos hfree
    have hle : deUsed b off ≤ deRecLen b off := hused ▸ hproper.2
    have hrest : u16sub (deRecLen b off) (deUsed b off) = deRecLen b off - deUsed b off := by
      have hlt := deRecLen_lt b off
      unfold u16sub
      omega
    have hb' : placeRecord b off ino name ft =
        fillRecord (cutRecord b off (deUsed b off)) (off + deUsed b off) ino name ft := by
      rw [placeRecord, if_neg fun h0 => hfree (deUsed_eq_zero.mp h0)]
      dsimp only
      rw [hrest]
      rfl
    rw [hb']
    refine ⟨[off, off + deUsed b off], _, h.split hname hino hfree ?_ hused⟩
    rw [← hused]
    exact hroom

/-- A record is cleared. -/
lemma Covered.clear (h : Covered n b (l₁ ++ off :: l₂)) :
    Covered n (Bytes.put32 b off 0) (l₁ ++ off :: l₂) ∧
      entriesAt (Bytes.put32 b off 0) (l₁ ++ off :: l₂) = entriesAt b l₁ ++ entriesAt b l₂ := by
  have hmem : off ∈ l₁ ++ off :: l₂ := List.mem_append_right l₁ List.mem_cons_self
  have hproper := h.proper off hmem
  have hle := hproper.le
  have hlen : deRecLen (Bytes.put32 b off 0) off = deRecLen b off :=
    Bytes.le16_blit_of_disjoint (by omega)
  have hname : deNameLen (Bytes.put32 b off 0) off = deNameLen b off := by
    unfold deNameLen Bytes.put32
    rw [Bytes.blit_of_not_mem (by omega)]
  obtain ⟨hcov, hentries⟩ := h.replace (Bytes.put32 b off 0) [off]
    (fun i _ hi => Bytes.blit_of_not_mem (by omega))
    ⟨rfl, by rw [Tiles.nil_iff, hlen]⟩ fun x hx => by
      rw [List.mem_singleton.mp hx, Proper, hlen, hname]
      exact hproper
  rw [List.append_assoc, List.singleton_append] at hcov hentries
  refine ⟨hcov, ?_⟩
  have hfree : deInode (Bytes.put32 b off 0) off = 0 := Bytes.le32_put32_self b off 0
  rw [hentries, entriesAt_cons, if_pos hfree]
  simp [entriesAt]

/-- The block with another name in the record at `off`, as `ext2_rename` writes it. -/
def renameRecord (b : Bytes) (off : ℕ) (name : List UInt8) : Bytes :=
  Bytes.blit (Bytes.put8 b (off + 6) (UInt8.ofNat name.length)) (off + 8) (Bytes.ofList name)
    name.length

/-- A record in use gets a name that fits. -/
lemma Covered.rename (h : Covered n b (l₁ ++ off :: l₂)) (hname : name.length ≤ 255)
    (hlive : deInode b off ≠ 0) (hfit : align4 (8 + name.length) ≤ deRecLen b off) :
    Covered n (renameRecord b off name) (l₁ ++ off :: l₂) ∧
      entriesAt (renameRecord b off name) (l₁ ++ off :: l₂) =
        entriesAt b l₁ ++ (off, ⟨deInode b off, deFileType b off, name⟩) :: entriesAt b l₂ := by
  have hmem : off ∈ l₁ ++ off :: l₂ := List.mem_append_right l₁ List.mem_cons_self
  have hproper := h.proper off hmem
  have hneed := le_align4 (8 + name.length)
  obtain ⟨b', hb'⟩ : ∃ b', b' = renameRecord b off name := ⟨_, rfl⟩
  rw [← hb']
  have hout : ∀ i, i ≠ off + 6 → (i < off + 8 ∨ off + 8 + name.length ≤ i) → b' i = b i :=
    fun i hne hi => by
      rw [hb', renameRecord, Bytes.blit_of_not_mem (by omega), Bytes.put8,
        Bytes.blit_of_not_mem (by omega)]
  have hlen : deRecLen b' off = deRecLen b off := Bytes.le16_congr fun i hi =>
    hout _ (by omega) (by omega)
  have hino : deInode b' off = deInode b off := Bytes.le32_congr fun i hi =>
    hout _ (by omega) (by omega)
  have htype : deFileType b' off = deFileType b off := hout _ (by omega) (by omega)
  have hnameLen : deNameLen b' off = name.length := by
    rw [hb', deNameLen, renameRecord, Bytes.blit_of_not_mem (by omega), Bytes.put8,
      Bytes.blit_of_mem (by omega), UInt8.toNat_ofNat', Nat.mod_eq_of_lt (by omega)]
  have hentry : entryAt b' off = ⟨deInode b off, deFileType b off, name⟩ := by
    rw [entryAt, hino, htype, deName, hnameLen, hb']
    exact congrArg (LiveEntry.mk _ _) (Bytes.slice_blit_ofList _ _ _)
  obtain ⟨hcov, hentries⟩ := h.replace b' [off]
    (fun i _ hi => hout i (by omega) (by omega)) ⟨rfl, by rw [Tiles.nil_iff, hlen]⟩ fun x hx => by
      rw [List.mem_singleton.mp hx, Proper, hlen, hnameLen]
      exact ⟨hproper.1, hfit⟩
  rw [List.append_assoc, List.singleton_append] at hcov hentries
  refine ⟨hcov, ?_⟩
  rw [hentries, entriesAt_cons, hino, if_neg hlive, hentry]
  simp [entriesAt]

/-- The block that `ext2_insert_dirent` appends to a directory. -/
def newDirBlock (n ino : ℕ) (name : List UInt8) (ft : UInt8) : Bytes :=
  fillRecord (Bytes.put16 Bytes.zeros 4 n) 0 ino name ft

/-- A new block is one record. -/
lemma covered_newDirBlock (hn : 4 ∣ n ∧ 264 ≤ n ∧ n < 65536) (hname : name.length ≤ 255)
    (hino : 0 < ino ∧ ino < 2 ^ 32) :
    Covered n (newDirBlock n ino name ft) [0] ∧
      entriesAt (newDirBlock n ino name ft) [0] = [(0, ⟨ino, ft, name⟩)] := by
  have hlen : deRecLen (newDirBlock n ino name ft) 0 = n := by
    rw [newDirBlock, deRecLen_fillRecord, deRecLen, Nat.zero_add, Bytes.le16_put16_self,
      Nat.mod_eq_of_lt hn.2.2]
  have halign := align4_lt (8 + name.length)
  have hdvd := dvd_align4 (8 + name.length)
  refine ⟨⟨⟨rfl, ?_⟩, fun x hx => ?_⟩, ?_⟩
  · rw [Tiles.nil_iff, hlen, Nat.zero_add]
  · rw [List.mem_singleton.mp hx, Proper, hlen, newDirBlock, deNameLen_fillRecord _ _ _ _ hname]
    exact ⟨hn.1, by omega⟩
  · rw [entriesAt_cons, if_neg, newDirBlock, entryAt_fillRecord _ _ _ _ hname hino.2]
    · rfl
    · rw [newDirBlock, deInode_fillRecord, Nat.mod_eq_of_lt hino.2]
      omega

end Ext2

end CoolFrost

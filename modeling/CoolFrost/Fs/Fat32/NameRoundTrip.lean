import CoolFrost.Fs.Fat32.Creation
import CoolFrost.Fs.Fat32.TableDrive

/-!
# FAT32: finding a file that has just been created

What `fat32_create` puts into the directory is found again by `fat32_finddir`, if the name is one
that the 8.3 format keeps, its first byte is not the mark of a deleted entry, and no entry of that
name stands in front of the slot.
-/

namespace CoolFrost

open Program

namespace Fat32

variable {fs : Fat32Fs} {v v' : Volume} {l l' : List ℕ} {raw name : List UInt8}
  {new : Bytes} {a d : ℕ}

/-! ## Looking an entry up that has just been put in -/

/-- No entry of that name stands in front of the first free slot. -/
def Unused (fs : Fat32Fs) (v : Volume) (l : List ℕ) (name : List UInt8) : Prop :=
  ∀ b ∈ (dirSlots fs l).takeWhile (fun b => ¬Vacant v.data b), ¬CalledBy v.data b name

namespace Placed

/-- What stands in front of the entry is as before. -/
lemma front (hl : Layout fs) (hchain : ChainAt fs v.fat d l) (h : Placed fs v l new a l' v') {b : ℕ}
    (hb : b ∈ (dirSlots fs l).takeWhile fun b => ¬Vacant v.data b) :
    b ≠ a ∧ v'.data b ≠ 0 ∧ ∀ i < 32, v'.data (b + i) = v.data (b + i) := by
  have hne : b ≠ a := fun heq => h.not_mem_front hl hchain (heq ▸ hb)
  have hsame := h.data_old hl hchain ((List.takeWhile_sublist _).subset hb) hne
  have hfirst : v'.data b = v.data b := hsame 0 (by norm_num)
  have hlive : ¬Vacant v.data b := by simpa using List.mem_takeWhile_imp hb
  exact ⟨hne, fun h0 => hlive (.inl (hfirst.symm.trans h0)), hsame⟩

/-- The entry is found unless there is one of that name in front of it. -/
lemma lookup_iff (hl : Layout fs) (hchain : ChainAt fs v.fat d l) (h : Placed fs v l new a l' v') :
    lookupSlot fs v' l' name = some a ↔ Unused fs v l name ∧ CalledBy new 0 name := by
  obtain ⟨post, hslots⟩ := h.slots hl
  have hfront : ∀ b ∈ (dirSlots fs l).takeWhile (fun b => ¬Vacant v.data b),
      b ≠ a ∧ v'.data b ≠ 0 ∧ (CalledBy v'.data b name ↔ CalledBy v.data b name) := by
    intro b hb
    obtain ⟨hne, hlive, hsame⟩ := h.front hl hchain hb
    exact ⟨hne, hlive, calledBy_congr hsame⟩
  have hnew : CalledBy v'.data a name ↔ CalledBy new 0 name :=
    calledBy_congr fun i hi => by rw [h.data_new i hi, Nat.zero_add]
  rw [lookupSlot, hslots, List.takeWhile_append_of_pos fun b hb => by simpa using (hfront b hb).2.1,
    List.find?_append]
  constructor
  · intro hfound
    cases hpre : ((dirSlots fs l).takeWhile fun b => ¬Vacant v.data b).find?
        fun b => CalledBy v'.data b name with
    | none =>
      rw [hpre, Option.none_or] at hfound
      have hcalled := List.find?_some hfound
      refine ⟨fun b hb hb' => ?_, hnew.mp (by simpa using hcalled)⟩
      have hno := List.find?_eq_none.mp hpre b hb
      exact hno (by simpa using (hfront b hb).2.2.mpr hb')
    | some b =>
      rw [hpre, Option.some_or, Option.some_inj] at hfound
      exact absurd hfound (hfront b (List.mem_of_find?_eq_some hpre)).1
  · rintro ⟨hunused, hcalled⟩
    have hpre : ((dirSlots fs l).takeWhile fun b => ¬Vacant v.data b).find?
        (fun b => CalledBy v'.data b name) = none := by
      refine List.find?_eq_none.mpr fun b hb => ?_
      simpa using fun hc => hunused b hb ((hfront b hb).2.2.mp hc)
    have hhere := hnew.mpr hcalled
    have h0 : v'.data a ≠ 0 := hhere.1.marks.1
    rw [hpre, Option.none_or, List.takeWhile_cons_of_pos (by simpa using h0),
      List.find?_cons_of_pos (by simpa using hhere)]

end Placed

/-! ## The entry of a new file -/

/-- The bytes of a new entry in front of its cluster. -/
lemma newEntry_low (raw : List UInt8) (cluster size : ℕ) {i : ℕ} (hi : i < 20) :
    newEntry raw cluster size i = if i = 11 then attrArchive else if i < 11 then
    raw.getD i 0 else 0 := by
  rw [newEntry, deSetClusterSize_of_lt (.inl (by omega)), Bytes.put8]
  split_ifs with h11 hlow
  · rw [Bytes.blit_of_mem (by omega)]
  · rw [Bytes.blit_of_not_mem (by omega), Bytes.blit_of_mem (by omega), Nat.sub_zero]
    rfl
  · rw [Bytes.blit_of_not_mem (by omega), Bytes.blit_of_not_mem (by omega)]
    rfl

/-- The entry at `a` has the name `raw`, and is neither a part of a long name nor a volume label. -/
structure Bears (b : Bytes) (a : ℕ) (raw : List UInt8) : Prop where
  name : ∀ i < 11, b (a + i) = raw.getD i 0
  notLfn : deAttr b a ≠ attrLfn
  notLabel : deAttr b a &&& attrVolumeId = 0

lemma bears_newEntry (raw : List UInt8) (cluster size : ℕ) :
    Bears (newEntry raw cluster size) 0 raw := by
  have hattr : deAttr (newEntry raw cluster size) 0 = attrArchive :=
    newEntry_low raw cluster size (by norm_num)
  refine ⟨fun i hi => ?_, by rw [hattr]; decide, by rw [hattr]; decide⟩
  rw [Nat.zero_add, newEntry_low raw cluster size (by omega), if_neg (by omega), if_pos hi]

/-- Such an entry reads as one unless its first byte is a mark. -/
lemma Bears.valid_iff {b : Bytes} (h : Bears b a raw) :
    Valid b a ↔ raw.getD 0 0 ≠ 0x00 ∧ raw.getD 0 0 ≠ 0xE5 := by
  have hfirst : b a = raw.getD 0 0 := h.name 0 (by norm_num)
  rw [Valid, fat32EntryValid, hfirst, if_neg h.notLfn, h.notLabel]
  split_ifs with h0 hE5 hvol
  · exact iff_of_false (by decide) fun h => h.1 h0
  · exact iff_of_false (by decide) fun h => h.2 hE5
  · exact absurd rfl hvol
  · exact iff_of_true rfl ⟨h0, hE5⟩

lemma Bears.format {b : Bytes} (h : Bears b a raw) :
    fat32Format83 b a = fat32Format83 (Bytes.ofList raw) 0 := by
  refine format_congr fun i hi => ?_
  rw [h.name i hi, Nat.zero_add]
  rfl

/-- A parsed name has no lower case letters. -/
lemma upper_format (h : fat32Parse83 name = some raw) (h0 : (0 : UInt8) ∉ name) :
    (fat32Format83 (Bytes.ofList raw) 0).map upper = fat32Format83 (Bytes.ofList raw) 0 := by
  have hup : ∀ l : List UInt8, (trim (l.map upper)).map upper = trim (l.map upper) := by
    intro l
    refine (List.map_congr_left fun c hc => ?_).trans (List.map_id _)
    obtain ⟨c', -, rfl⟩ := List.mem_map.mp (mem_of_mem_trim hc)
    exact upper_upper c'
  rw [format_parse h h0, List.map_append, hup]
  split_ifs with hnil
  · rfl
  · rw [List.map_cons, hup]
    rfl

/-- What keeps a name: the format does, and its first byte is no mark. -/
def Kept (name : List UInt8) : Prop := Lossless name ∧ name.head? ≠ some 0xE5

instance (name : List UInt8) : Decidable (Kept name) := inferInstanceAs (Decidable (_ ∧ _))

/-- The first byte that is stored is a mark only if that of the name is. -/
lemma first_ne_iff (h : fat32Parse83 name = some raw) (h0 : (0 : UInt8) ∉ name) :
    raw.getD 0 0 ≠ 0x00 ∧ (raw.getD 0 0 ≠ 0xE5 ↔ name.head? ≠ some 0xE5) := by
  obtain ⟨c, rest, rfl, hfirst⟩ := raw_first h
  rw [hfirst, ne_eq, upper_eq_iff (.inl (by decide)), ne_eq, upper_eq_iff (.inr (by decide)),
    List.head?_cons, ne_eq, Option.some_inj]
  exact ⟨fun hc => h0 (hc ▸ List.mem_cons_self), Iff.rfl⟩

/-- The entry is found under its name exactly if the name is kept. -/
lemma Bears.calledBy_iff {b : Bytes} (hb : Bears b a raw) (h : fat32Parse83 name = some raw)
    (h0 : (0 : UInt8) ∉ name) : CalledBy b a name ↔ Kept name := by
  obtain ⟨hne0, hneE5⟩ := first_ne_iff h h0
  rw [CalledBy, hb.valid_iff, and_iff_right hne0, hneE5, hb.format,
    strcasecmp_eq_zero_iff (zero_not_mem_format _ _) h0, upper_format h h0, format_parse_iff h h0,
    Kept, and_comm]

/-! ## Creating a file and looking it up -/

/-- A directory of a mounted volume: an allocated node, and the clusters `l` of the directory. -/
structure DirNode (fs : Fat32Fs) (v : Volume) (dir : ℕ) (l : List ℕ) : Prop where
  allocated : dir < v.used
  onVolume : (v.nodes dir).fi.fs = fs
  chain : ChainAt fs v.fat (v.nodes dir).inode l
  nonempty : l ≠ []

/-- Create a file and look its name up. -/
def createAndFind (dir : ℕ) (name : List UInt8) : Program Fat32State (Option ℕ × Option ℕ) := do
  let created ← fat32Create dir name
  let found ← fat32Finddir dir name
  return (created, found)

/-- The entry of the file that has been created is the one that is found. -/
def FoundAgain (r : Option ℕ × Option ℕ) (v : Volume) : Prop :=
  ∃ n n', r = (some n, some n') ∧ (v.nodes n').fi = (v.nodes n).fi

/-- The file is found again: its name is kept, no entry of that name comes first, and there is a
node for each of the two calls. -/
def Findable (fs : Fat32Fs) (v : Volume) (l : List ℕ) (name : List UInt8) : Prop :=
  Kept name ∧ Unused fs v l name ∧ v.used + 1 < maxVfsNodes

/-- What is found is at the place of the new entry exactly if it is the new entry. -/
lemma entry_fi_iff {dir b : ℕ} :
    (nodeOfEntry fs dir (entryAt fs v b)).fi = (newFile fs dir raw a).fi ↔ b = a := by
  constructor
  · intro hfi
    have hlba : fs.dataStartLba + b / 512 = fs.dataStartLba + a / 512 :=
      congrArg Fat32FileInfo.direntLba hfi
    have hoff : b % 512 = a % 512 := congrArg Fat32FileInfo.direntOff hfi
    omega
  · rintro rfl
    rfl

/-- Looking up the name of the file that has just been created. -/
lemma wp_findCreated (hl : Layout fs) {dir : ℕ} (hdir : DirNode fs v dir l)
    (hparse : fat32Parse83 name = some raw) (h0 : (0 : UInt8) ∉ name)
    (hplaced : Placed fs v l (newEntry raw 0 0) a l' v') :
    (fat32View fs).wp (fat32Finddir dir name)
      (fun r v₂ => FoundAgain (some v.used, r) v₂ ↔ Findable fs v l name)
      { v' with
        nodes := Function.update v.nodes v.used (newFile fs dir raw a), used := v.used + 1 } := by
  have hnode : Function.update v.nodes v.used (newFile fs dir raw a) dir = v.nodes dir :=
    Function.update_of_ne hdir.allocated.ne _ _
  have hchain := hplaced.chain hl hdir.chain hdir.nonempty
  have hfound : lookupSlot fs v' l' name = some a ↔ Unused fs v l name ∧ Kept name := by
    rw [hplaced.lookup_iff hl hdir.chain, (bears_newEntry raw 0 0).calledBy_iff hparse h0]
  refine View.wp_mono (wp_finddir hl (l := l') ?_ ?_ name) ?_
  · simp only [hnode, hdir.onVolume]
  · simp only [hnode]
    exact hchain
  intro r v₂ hr
  have hsame : lookupEntry fs { v' with
      nodes := Function.update v.nodes v.used (newFile fs dir raw a), used := v.used + 1 } l' name =
        lookupEntry fs v' l' name := rfl
  rw [hsame, lookupEntry_eq hl] at hr
  cases hlook : lookupSlot fs v' l' name with
  | none =>
    rw [hlook] at hr hfound
    obtain ⟨rfl, rfl⟩ := hr
    refine iff_of_false ?_ fun h => ?_
    · rintro ⟨n, n', heq, -⟩
      cases heq
    · cases hfound.mpr ⟨h.2.1, h.1⟩
  | some b =>
    rw [hlook] at hr hfound
    simp only [Option.map_some] at hr
    split_ifs at hr with hfull
    · obtain ⟨rfl, rfl⟩ := hr
      refine iff_of_false ?_ fun h => Nat.not_lt.mpr hfull h.2.2
      rintro ⟨n, n', heq, -⟩
      cases heq
    · obtain ⟨rfl, rfl⟩ := hr
      rw [Option.some_inj] at hfound
      have hsame : FoundAgain (some v.used, some (v.used + 1))
          { v' with
            nodes := Function.update (Function.update v.nodes v.used (newFile fs dir raw a))
              (v.used + 1)
              (nodeOfEntry fs dir (entryAt fs v' b))
            used := v.used + 1 + 1 } ↔
            (nodeOfEntry fs dir (entryAt fs v' b)).fi = (newFile fs dir raw a).fi := by
        have hnew : Function.update
          (Function.update v.nodes v.used (newFile fs dir raw a)) (v.used + 1)
            (nodeOfEntry fs dir (entryAt fs v' b)) v.used = newFile fs dir raw a := by
          rw [Function.update_of_ne (Nat.lt_succ_self _).ne, Function.update_self]
        constructor
        · rintro ⟨n, n', heq, hfi⟩
          cases heq
          simpa only [Function.update_self, hnew] using hfi
        · intro hfi
          exact ⟨_, _, rfl, by simpa only [Function.update_self, hnew] using hfi⟩
      rw [hsame, entry_fi_iff, hfound, Findable]
      have hroom : v.used + 1 < maxVfsNodes := Nat.lt_of_not_le hfull
      tauto

lemma wp_createAndFind (hl : Layout fs) {dir : ℕ} (hdir : DirNode fs v dir l)
    (h0 : (0 : UInt8) ∉ name) :
    (fat32View fs).wp (createAndFind dir name)
      (fun r v' => r.1 ≠ none → (FoundAgain r v' ↔ Findable fs v l name)) v := by
  refine View.wp_bind (wp_create_at hl hdir.onVolume hdir.chain hdir.nonempty) ?_
  have hnone : ∀ v₁ l₁, (v₁.nodes dir).fi.fs = fs → ChainAt fs v₁.fat (v₁.nodes dir).inode l₁ →
      (fat32View fs).wp (do
        let found ← fat32Finddir dir name
        return ((none : Option ℕ), found))
        (fun r v' => r.1 ≠ none → (FoundAgain r v' ↔ Findable fs v l name)) v₁ := by
    intro v₁ l₁ hfs hchain
    exact View.wp_bind (wp_finddir hl hfs hchain name) fun r v₂ _ =>
      View.wp_pure fun h => absurd rfl h
  rintro r v₁ (⟨rfl, rfl, -⟩ | ⟨raw, a, l', v₂, -, hparse, hplaced, hr⟩)
  · exact hnone v₁ l hdir.onVolume hdir.chain
  split_ifs at hr with hfull
  · obtain ⟨rfl, rfl⟩ := hr
    obtain ⟨hnodes, -⟩ := hplaced.nodes
    refine hnone v₁ l' ?_ ?_
    · rw [hnodes]
      exact hdir.onVolume
    · rw [hnodes]
      exact hplaced.chain hl hdir.chain hdir.nonempty
  · obtain ⟨rfl, rfl⟩ := hr
    refine View.wp_bind (wp_findCreated hl hdir hparse h0 hplaced) ?_
    exact fun r v₃ hr => View.wp_pure fun _ => hr

/-- A name that is accepted is stored and comes back, and a file that has been created under it is
found under it, exactly under these conditions. -/
theorem nameRoundTrip_iff {name : List UInt8} (h0 : (0 : UInt8) ∉ name) :
    (∀ raw, fat32Parse83 name = some raw →
      ((fat32Format83 (Bytes.ofList raw) 0 = name.map upper ∧ raw.getD 0 0 ≠ 0x00 ∧
        raw.getD 0 0 ≠ 0xE5) ↔ Kept name)) ∧
    ∀ (fs : Fat32Fs) (s : Fat32State) (dir : ℕ) (l : List ℕ), Layout fs → Sound fs s →
      DirNode fs ((fat32View fs).view s) dir l →
      wp (createAndFind dir name) (fun r s' => r.1 ≠ none →
        (FoundAgain r ((fat32View fs).view s') ↔ Findable fs ((fat32View fs).view s) l name))
        s := by
  refine ⟨fun raw hparse => ?_, fun fs s dir l hl hs hdir => ?_⟩
  · obtain ⟨hne0, hneE5⟩ := first_ne_iff hparse h0
    rw [format_parse_iff hparse h0, and_iff_right hne0, hneE5, Kept]
  · exact wp_mono (wp_createAndFind hl hdir h0 s hs rfl) fun r s' hr => hr.2

lemma sixVolume_root : DirNode sixFs sixVolume 0 [2] :=
  ⟨Nat.zero_lt_one, rfl, ⟨rfl, ⟨le_rfl, by decide⟩, le_rfl⟩, by decide⟩

/-- Its first slot is free. -/
lemma sixVolume_unused (name : List UInt8) : Unused sixFs sixVolume [2] name := by
  have hfront : ((dirSlots sixFs [2]).takeWhile fun b => ¬Vacant sixVolume.data b) = [] := by decide
  intro b hb
  rw [hfront] at hb
  cases hb

theorem nameRoundTrip_iff_dots :
    (fat32Format83 (Bytes.ofList [65, 32, 32, 32, 32, 32, 32, 32, 66, 32, 32]) 0 = [65, 46, 66] ∧
      Kept [97, 46, 98]) ∧
    wp (createAndFind 0 [97, 46, 98]) (fun r s' => r.1 ≠ none →
      FoundAgain r ((fat32View sixFs).view s')) (sixState 2) := by
  obtain ⟨hformat, hfind⟩ := @nameRoundTrip_iff [97, 46, 98] (by decide)
  have hkept := (hformat [65, 32, 32, 32, 32, 32, 32, 32, 66, 32, 32] (by decide)).mpr (by decide)
  have hdir : DirNode sixFs ((fat32View sixFs).view (sixState 2)) 0 [2] := by
    rw [sixState_view]
    exact sixVolume_root
  refine ⟨⟨hkept.1, by decide⟩, ?_⟩
  refine wp_mono (hfind sixFs (sixState 2) 0 [2] sixFs_layout (sixState_sound 2) hdir)
    fun r s' hr h => (hr h).mpr ?_
  rw [sixState_view]
  exact ⟨by decide, sixVolume_unused _, by decide⟩

/-- The name `A B` is accepted and listed as `A`, and is not found again. -/
theorem not_nameRoundTrip :
    (¬ ∀ name raw, (0 : UInt8) ∉ name → fat32Parse83 name = some raw →
      fat32Format83 (Bytes.ofList raw) 0 = name.map upper ∧ raw.getD 0 0 ≠ 0x00 ∧
        raw.getD 0 0 ≠ 0xE5) ∧
    ¬ ∀ (fs : Fat32Fs) (s : Fat32State) (dir : ℕ) (l : List ℕ) (name : List UInt8), Layout fs →
      Sound fs s → DirNode fs ((fat32View fs).view s) dir l → (0 : UInt8) ∉ name →
      Unused fs ((fat32View fs).view s) l name → s.nodePoolUsed + 1 < maxVfsNodes →
      wp (createAndFind dir name) (fun r s' => r.1 ≠ none →
        FoundAgain r ((fat32View fs).view s')) s := by
  refine ⟨fun h => ?_, fun h => ?_⟩
  · exact absurd (h [65, 32, 66] _ (by decide) rfl).1 (by decide)
  have hdir : DirNode sixFs ((fat32View sixFs).view (sixState 2)) 0 [2] := by
    rw [sixState_view]
    exact sixVolume_root
  have hrun : ((createAndFind 0 [65, 32, 66]).run (sixState 2)).map (fun p => p.1) =
      some (some 1, none) := by decide +kernel
  obtain ⟨r, s', hm, hfound⟩ := h sixFs (sixState 2) 0 [2] [65, 32, 66] sixFs_layout
    (sixState_sound 2) hdir (by decide)
    (by rw [sixState_view]; exact sixVolume_unused _) (by decide)
  rw [StateT.run, hm, Option.map_some, Option.some_inj] at hrun
  obtain rfl : r = (some 1, none) := hrun
  obtain ⟨n, n', heq, -⟩ := hfound (by simp)
  cases heq

end Fat32

end CoolFrost

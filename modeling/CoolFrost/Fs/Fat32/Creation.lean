import CoolFrost.Fs.Fat32.Directories
import CoolFrost.Fs.Fat32.OneFile

/-!
# FAT32: creating files

`fat32_create` puts the entry into the directory, for which the directory may grow by a cluster, and
then asks for a node of the pool.  Nothing is undone when there is none.
-/

namespace CoolFrost

open Program

namespace Fat32

variable {fs : Fat32Fs} {v v' : Volume} {l : List ℕ} {raw name : List UInt8}

/-! ## Inserting an entry -/

/-- The slot at `a` is free. -/
def Vacant (b : Bytes) (a : ℕ) : Prop := b a = 0x00 ∨ b a = 0xE5

instance (b : Bytes) (a : ℕ) : Decidable (Vacant b a) := inferInstanceAs (Decidable (_ ∨ _))

/-- The entries of a directory, each with its address: the slots that are not free. -/
def entriesIn (fs : Fat32Fs) (v : Volume) (d : ℕ) : Set (ℕ × List UInt8) :=
  {e | ∃ l, ChainAt fs v.fat d l ∧ e.1 ∈ dirSlots fs l ∧ ¬Vacant v.data e.1 ∧
    e.2 = Bytes.slice v.data e.1 32}

/-- The table and the entries of the directories are as before. -/
structure SameRecords (fs : Fat32Fs) (v v' : Volume) : Prop where
  fat : v'.fat = v.fat
  entries : ∀ d, entriesIn fs v' d = entriesIn fs v d

lemma SameRecords.refl (fs : Fat32Fs) (v : Volume) : SameRecords fs v v := ⟨rfl, fun _ => rfl⟩

/-- The directory has a free slot. -/
def HasFreeSlot (fs : Fat32Fs) (v : Volume) (l : List ℕ) : Prop :=
  ∃ a ∈ dirSlots fs l, Vacant v.data a

instance (fs : Fat32Fs) (v : Volume) (l : List ℕ) : Decidable (HasFreeSlot fs v l) :=
  inferInstanceAs (Decidable (∃ a ∈ dirSlots fs l, _))

/-- There is a slot for one more entry, or a cluster for it. -/
def Accepts (fs : Fat32Fs) (v : Volume) (l : List ℕ) : Prop := HasFreeSlot fs v l ∨ ¬Full fs v

/-- Putting the entry into the directory changes the records of the volume: an entry that reads as a
free slot only does when a cluster is taken for it. -/
def Shows (fs : Fat32Fs) (v : Volume) (l : List ℕ) (raw : List UInt8) : Prop :=
  (HasFreeSlot fs v l ∧ ¬Vacant (newEntry raw 0 0) 0) ∨ (¬HasFreeSlot fs v l ∧ ¬Full fs v)

/-- What `fat32_insert_dirent` does at a slot. -/
def insertStep (lba : ℕ) (buf : Bytes) (off : ℕ) (_ : Unit) : Unit ⊕ Option EntryAt :=
  if buf off ≠ 0x00 ∧ buf off ≠ 0xE5 then .inl () else .inr (some ⟨lba, off, buf⟩)

lemma mem_dirSlots_dvd (hl : Layout fs) {a : ℕ} (h : a ∈ dirSlots fs l) : 32 ∣ a := by
  obtain ⟨k, -, rfl⟩ := (mem_dirSlots hl).mp h
  exact slotAt_dvd fs l k

lemma search_insertStep (hl : Layout fs) (v : Volume) (l : List ℕ) :
    search (entryStep fs v insertStep) (dirSlots fs l) () =
      ((dirSlots fs l).find? fun a => Vacant v.data a).elim (.inl ())
        fun a => .inr (some (entryAt fs v a)) := by
  rw [← search_eq_find? (Vacant v.data) (fun a => some (entryAt fs v a))]
  refine search_congr (fun a ha _ => ?_) ()
  have hbyte : sectorAt v (a / 512) (a % 512) = v.data a := by
    have h := sectorAt_entry v (mem_dirSlots_dvd hl ha) 0 (by norm_num)
    rwa [Nat.add_zero, Nat.add_zero] at h
  rw [entryStep, insertStep, hbyte]
  by_cases hfree : Vacant v.data a
  · rw [if_pos hfree, if_neg (by rw [Vacant] at hfree; tauto)]
    rfl
  · rw [if_neg hfree, if_pos (by rw [Vacant] at hfree; tauto)]

/-- Writing an entry into a slot. -/
lemma wp_writeSlot (hl : Layout fs) {a : ℕ} (ha : 32 ∣ a) (new : Bytes) :
    (fat32View fs).wp (writeData fs.dev (entryAt fs v a).lba 1
        (Bytes.blit (entryAt fs v a).buf (entryAt fs v a).off new 32)) (fun ok v' =>
      ok = true ∧ v' = { v with data := Bytes.blit v.data a new 32 }) v := by
  refine View.wp_mono (wp_writeData hl (a / 512) 1 (by norm_num) _) ?_
  rintro ok v' ⟨rfl, rfl⟩
  have haddr : a / 512 * 512 + a % 512 = a := Nat.div_add_mod' a 512
  have hblit : Bytes.blit v.data (a / 512 * 512)
    (Bytes.blit (sectorAt v (a / 512)) (a % 512) new 32)
      (1 * 512) = Bytes.blit v.data a new 32 := by
    rw [sectorAt, Bytes.blit_readModify (by omega), haddr]
  exact ⟨rfl, congrArg (fun d => { v with data := d }) hblit⟩

/-- An entry that reads as a free slot is none. -/
lemma sameRecords_vacant (hl : Layout fs) {a : ℕ} {new : Bytes} (ha : 32 ∣ a)
    (hold : Vacant v.data a) (hnew : Vacant new 0) :
    SameRecords fs v { v with data := Bytes.blit v.data a new 32 } := by
  refine ⟨rfl, fun d => Set.ext fun e => ?_⟩
  refine exists_congr fun l => and_congr_right fun _ => and_congr_right fun he => ?_
  have hdvd := mem_dirSlots_dvd hl he
  simp only
  by_cases heq : e.1 = a
  · refine iff_of_false (fun h => h.1 ?_) fun h => h.1 (by rwa [heq])
    rw [heq, Vacant, Bytes.blit_of_mem (by omega), Nat.sub_self]
    exact hnew
  · have hbyte : ∀ i < 32, Bytes.blit v.data a new 32 (e.1 + i) = v.data (e.1 + i) :=
      fun i hi => Bytes.blit_of_not_mem (by omega)
    have hfirst := hbyte 0 (by norm_num)
    rw [Nat.add_zero] at hfirst
    have hslice : Bytes.slice (Bytes.blit v.data a new 32) e.1 32 = Bytes.slice v.data e.1 32 :=
      List.map_congr_left fun i hi => hbyte i (List.mem_range.mp hi)
    rw [Vacant, Vacant, hfirst, hslice]

/-- An entry that does not read as a free slot is a new one. -/
lemma not_sameRecords_of_entry {a d : ℕ} {new : Bytes} (hchain : ChainAt fs v.fat d l)
    (ha : a ∈ dirSlots fs l) (hold : Vacant v.data a) (hnew : ¬Vacant new 0) :
    ¬SameRecords fs v { v with data := Bytes.blit v.data a new 32 } := by
  intro hsame
  have hmem : (a, Bytes.slice (Bytes.blit v.data a new 32) a 32) ∈
      entriesIn fs { v with data := Bytes.blit v.data a new 32 } d := by
    refine ⟨l, hchain, ha, ?_, rfl⟩
    simp only
    rw [Vacant, Bytes.blit_of_mem (by omega), Nat.sub_self]
    exact hnew
  rw [hsame.entries d] at hmem
  obtain ⟨-, -, -, hno, -⟩ := hmem
  exact hno hold

/-- The entry `new` is put at the address `a` into a directory with the clusters `l`, which then has
the clusters `l'`: into the first free slot, or into the first one of a cluster of zeros that is
appended to the directory. -/
inductive Placed (fs : Fat32Fs) (v : Volume) (l : List ℕ) (new : Bytes) :
    ℕ → List ℕ → Volume → Prop
  | slot {a : ℕ} (h : (dirSlots fs l).find? (fun a => Vacant v.data a) = some a) :
    Placed fs v l new a l { v with data := Bytes.blit v.data a new 32 }
  | grown {c : ℕ} (h : ¬HasFreeSlot fs v l) (hc : InRange fs c) (hfree : v.fat c = 0) :
    Placed fs v l new (clusterOff fs c) (l ++ [c])
      { v with
        fat := Function.update (Function.update v.fat c fat32Eoc) (l.getLastD 0) c
        data := Bytes.blit (Bytes.blit v.data (clusterOff fs c) Bytes.zeros (clusterSize fs))
          (clusterOff fs c) new 32 }

lemma mem_of_getLastD (h : l ≠ []) : l.getLastD 0 ∈ l := by
  rw [List.getLastD_eq_getLast?, List.getLast?_eq_getLast_of_ne_nil h]
  exact List.getLast_mem h

lemma mem_clusterSlots {c a : ℕ} (h : a ∈ clusterSlots fs c) :
    clusterOff fs c ≤ a ∧ a + 32 ≤ clusterOff fs c + clusterSize fs := by
  rw [clusterSlots_eq] at h
  obtain ⟨k, hk, rfl⟩ := List.mem_map.mp h
  have hk' := List.mem_range.mp hk
  rw [clusterSize_eq]
  omega

namespace Placed

variable {new : Bytes} {a d : ℕ} {l' : List ℕ}

lemma nodes (h : Placed fs v l new a l' v') : v'.nodes = v.nodes ∧ v'.used = v.used := by
  cases h <;> exact ⟨rfl, rfl⟩

/-- The entry is there. -/
lemma data_new (h : Placed fs v l new a l' v') : ∀ i < 32, v'.data (a + i) = new i := by
  intro i hi
  cases h <;> exact (Bytes.blit_of_mem (by omega)).trans
    (congrArg new (Nat.add_sub_cancel_left _ _))

/-- A cluster that is free is apart from the directory. -/
lemma apart (hchain : ChainAt fs v.fat d l) {c b : ℕ} (hc : InRange fs c)
    (hfree : v.fat c = 0) (hb : b ∈ dirSlots fs l) :
    b + 32 ≤ clusterOff fs c ∨ clusterOff fs c + clusterSize fs ≤ b := by
  obtain ⟨c', hc', hbc⟩ := List.mem_flatMap.mp hb
  obtain ⟨hlo, hhi⟩ := mem_clusterSlots hbc
  have hne : c' ≠ c := fun heq => hchain.ne_zero hc' (heq ▸ hfree)
  rcases Nat.lt_or_gt_of_ne hne with hlt | hgt
  · have := clusterOff_lt fs (hchain.inside_of_mem hc').1 hlt
    omega
  · have := clusterOff_lt fs hc.1 hgt
    omega

/-- The other slots of the directory, and those of the other directories, are left alone. -/
lemma data_old (hl : Layout fs) {lb : List ℕ} (hchain : ChainAt fs v.fat d lb)
    (h : Placed fs v l new a l' v') {b : ℕ} (hb : b ∈ dirSlots fs lb) (hne : b ≠ a) :
    ∀ i < 32, v'.data (b + i) = v.data (b + i) := by
  intro i hi
  have hdvd := mem_dirSlots_dvd hl hb
  cases h with
  | slot h =>
    have hdvd' := mem_dirSlots_dvd hl (List.mem_of_find?_eq_some h)
    exact Bytes.blit_of_not_mem (by omega)
  | grown hno hc hfree =>
    have hpos := clusterSize_pos hl
    have hsize := clusterSize_eq fs
    have hapart := apart hchain hc hfree hb
    simp only
    rw [Bytes.blit_of_not_mem (by omega), Bytes.blit_of_not_mem (by omega)]

/-- The slots in front of the entry are those in front of the first free one. -/
lemma slots (hl : Layout fs) (h : Placed fs v l new a l' v') : ∃ post, dirSlots fs l' =
    ((dirSlots fs l).takeWhile fun b => ¬Vacant v.data b) ++ a :: post := by
  cases h with
  | slot h =>
    obtain ⟨hold, pre, post, hsplit, hpre⟩ := List.find?_eq_some_iff_append.mp h
    refine ⟨post, ?_⟩
    rw [hsplit, List.takeWhile_append_of_pos fun b hb => by simpa using hpre b hb,
      List.takeWhile_cons_of_neg (by simpa using hold), List.append_nil]
  | @grown c hno hc hfree =>
    obtain ⟨rest, hrest⟩ := dirSlots_cons hl c []
    refine ⟨(clusterOff fs c + 32) :: rest, ?_⟩
    have hall : (dirSlots fs l).takeWhile (fun b => ¬Vacant v.data b) = dirSlots fs l := by
      rw [List.takeWhile_eq_self_iff]
      exact fun b hb => decide_eq_true fun hfree => hno ⟨b, hb, hfree⟩
    rw [hall, ← hrest, dirSlots, List.flatMap_append]
    rfl

/-- None of these slots is that of the entry. -/
lemma not_mem_front (hl : Layout fs) (hchain : ChainAt fs v.fat d l)
    (h : Placed fs v l new a l' v') :
    a ∉ (dirSlots fs l).takeWhile fun b => ¬Vacant v.data b := by
  intro hmem
  cases h with
  | slot h =>
    have hno := List.mem_takeWhile_imp hmem
    have hold := List.find?_some h
    simp_all
  | grown hno hc hfree =>
    have hpos := clusterSize_pos hl
    have hapart := apart hchain hc hfree ((List.takeWhile_sublist _).subset hmem)
    omega

/-- The directory is still a chain of clusters. -/
lemma chain (hl : Layout fs) (hchain : ChainAt fs v.fat d l) (hne : l ≠ [])
    (h : Placed fs v l new a l' v') : ChainAt fs v'.fat d l' := by
  cases h with
  | slot h => exact hchain
  | @grown c hno hc hfree =>
    obtain ⟨pre, t, rfl⟩ := (List.eq_nil_or_concat' l).resolve_left hne
    have hone : chainFat v.fat c 1 1 = Function.update v.fat c fat32Eoc := by
      funext c'
      rw [chainFat, Function.update_apply]
      by_cases heq : c' = c
      · rw [if_pos heq, if_pos (by omega), if_neg (by omega)]
      · rw [if_neg heq, if_neg (by omega)]
    have hrun := ChainAt.append_run hl hchain hc.1 Nat.one_pos (Nat.succ_le_succ hc.2)
      fun c' hlo hhi => (Nat.le_antisymm hlo (Nat.le_of_lt_succ hhi)) ▸ hfree
    rw [hone] at hrun
    simpa using hrun

end Placed

/-- The result of `fat32_insert_dirent` for an entry at the address `a`. -/
def placeOf (fs : Fat32Fs) (a : ℕ) : ℕ × ℕ := (fs.dataStartLba + a / 512, a % 512)

/-- `fat32_insert_dirent` puts the entry into the directory, unless there is no room for it. -/
lemma wp_insertDirent (hl : Layout fs) {dir cluster size : ℕ}
    (hchain : ChainAt fs v.fat (v.nodes dir).inode l) (hne : l ≠ []) :
    (fat32View fs).wp (fat32InsertDirent fs dir raw cluster size) (fun r v' =>
      (r = none ∧ v' = v ∧ ¬Accepts fs v l) ∨
        ∃ a l', r = some (placeOf fs a) ∧ Placed fs v l (newEntry raw cluster size) a l' v') v := by
  refine View.wp_get fun s _ hs => ?_
  have hnodes : s.nodePool = v.nodes := congrArg Volume.nodes hs
  simp only [hnodes]
  refine View.wp_bind (wp_dirWalk hl none insertStep hchain ()) ?_
  rintro _ v₁ ⟨rfl, rfl⟩
  rw [search_insertStep hl]
  cases hfind : (dirSlots fs l).find? fun a => Vacant v₁.data a with
  | some a =>
    have hdvd := mem_dirSlots_dvd hl (List.mem_of_find?_eq_some hfind)
    refine View.wp_bind (wp_writeSlot hl hdvd _) ?_
    rintro _ v₂ ⟨rfl, rfl⟩
    exact View.wp_ite (fun _ => View.wp_pure (.inr ⟨a, l, rfl, .slot hfind⟩)) fun h => absurd rfl h
  | none =>
    have hno : ¬HasFreeSlot fs v₁ l := by
      rintro ⟨a, ha, hfree⟩
      exact List.find?_eq_none.mp hfind a ha (decide_eq_true hfree)
    simp only [Option.elim_none]
    refine View.wp_bind (wp_allocCluster hl) ?_
    rintro c v₂ (⟨rfl, rfl, hfull⟩ | ⟨hc, hfree, rfl⟩)
    · exact View.wp_ite (fun _ => View.wp_pure (.inl ⟨rfl, rfl, fun h =>
        h.elim hno fun hnf => hnf hfull⟩)) fun h => absurd rfl h
    · have hlast : l.getLastD (v₁.nodes dir).inode = l.getLastD 0 := by
        rw [List.getLastD_eq_getLast?, List.getLastD_eq_getLast?,
          List.getLast?_eq_getLast_of_ne_nil hne]
        rfl
      refine View.wp_ite (fun h0 => absurd hc.1 (by omega)) fun _ => ?_
      rw [clusterToLba_eq hl hc, hlast]
      refine View.wp_bind (wp_writeData hl _ _ (hl.spc_le.trans_lt (by decide)) _) ?_
      rintro _ v₃ ⟨rfl, rfl⟩
      refine View.wp_ite (fun _ => ?_) fun h => absurd rfl h
      refine View.wp_bind (wp_setEntry hl (hchain.inside_of_mem (mem_of_getLastD hne)).lt c) ?_
      rintro _ v₄ ⟨rfl, rfl⟩
      refine View.wp_ite (fun _ => ?_) fun h => absurd rfl h
      refine View.wp_bind (wp_writeData hl _ 1 (by norm_num) _) ?_
      rintro _ v₅ ⟨rfl, rfl⟩
      refine View.wp_ite (fun _ => View.wp_pure (.inr ⟨clusterOff fs c, l ++ [c], ?_, ?_⟩))
        fun h => absurd rfl h
      · rw [placeOf, clusterOff_eq, Nat.mul_div_cancel _ (by norm_num), Nat.mul_mod_left]
      · -- the first sector of the new cluster is written once more
        have hsector : ∀ d new, Bytes.blit (Bytes.blit d (clusterOff fs c) Bytes.zeros
            (clusterSize fs)) (clusterOff fs c) (Bytes.blit Bytes.zeros 0 new 32) (1 * 512) =
            Bytes.blit (Bytes.blit d (clusterOff fs c) Bytes.zeros (clusterSize fs))
              (clusterOff fs c) new 32 := fun d new => by
          rw [Bytes.blit_inside (by norm_num), Nat.add_zero]
          refine congrArg (fun b => Bytes.blit b _ new 32) (Bytes.blit_self fun i hi => ?_)
          have hpos := hl.spc_pos
          rw [Bytes.blit_of_mem (by rw [clusterSize]; omega)]
          rfl
        have hplaced := @Placed.grown fs v₁ l (newEntry raw cluster size) c hno hc hfree
        rw [← hsector] at hplaced
        rw [hc.mod_eq hl]
        simpa only [clusterOff_eq, clusterSize] using hplaced

lemma Placed.accepts {new : Bytes} {a : ℕ} {l' : List ℕ} (h : Placed fs v l new a l' v') :
    Accepts fs v l := by
  cases h with
  | slot h =>
    have hold := List.find?_some h
    exact .inl ⟨_, List.mem_of_find?_eq_some h, of_decide_eq_true hold⟩
  | grown hno hc hfree => exact .inr fun hfull => hfull _ hc hfree

/-- When an empty file is put into a directory. -/
lemma Placed.recorded (hl : Layout fs) {d a : ℕ} {l' : List ℕ} (hchain : ChainAt fs v.fat d l)
    (hne : l ≠ []) (h : Placed fs v l (newEntry raw 0 0) a l' v') :
    SameRecords fs v v' ↔ ¬Shows fs v l raw := by
  cases h with
  | slot hfind =>
    have ha := List.mem_of_find?_eq_some hfind
    have hold : Vacant v.data a := by simpa using List.find?_some hfind
    have hslot : HasFreeSlot fs v l := ⟨a, ha, hold⟩
    by_cases hnew : Vacant (newEntry raw 0 0) 0
    · refine iff_of_true (sameRecords_vacant hl (mem_dirSlots_dvd hl ha) hold hnew) ?_
      rintro (⟨-, hno⟩ | ⟨hno, -⟩)
      · exact hno hnew
      · exact hno hslot
    · exact iff_of_false (not_sameRecords_of_entry hchain ha hold hnew)
        (not_not.mpr (.inl ⟨hslot, hnew⟩))
  | @grown c hno hc hfree =>
    refine iff_of_false (fun hsame => ?_) (not_not.mpr (.inr ⟨hno, fun hfull => hfull c hc hfree⟩))
    -- the table says that the new cluster is in use
    have hlast : c ≠ l.getLastD 0 := fun heq =>
      hchain.ne_zero (mem_of_getLastD hne) (heq ▸ hfree)
    have hentry := congrFun hsame.fat c
    simp only [Function.update_of_ne hlast, Function.update_self, hfree] at hentry
    cases hentry

/-! ## Creating a file -/

/-- There is room for the entry of a file called `name` in the directory `nd`. -/
def Enters (fs : Fat32Fs) (v : Volume) (nd : Fat32Node) (l : List ℕ) (name : List UInt8) : Prop :=
  nd.type.isDirectory = true ∧ fat32Parse83 name ≠ none ∧ Accepts fs v l

/-- Creating the file changes the records of the volume. -/
def Alters (fs : Fat32Fs) (v : Volume) (nd : Fat32Node) (l : List ℕ) (name : List UInt8) : Prop :=
  nd.type.isDirectory = true ∧ ∃ raw, fat32Parse83 name = some raw ∧ Shows fs v l raw

/-- The node of the new file with the entry at the address `a`. -/
def newFile (fs : Fat32Fs) (dir : ℕ) (raw : List UInt8) (a : ℕ) : Fat32Node :=
  { name := fat32Format83 (Bytes.ofList raw) 0, type := .file, size := 0, inode := 0
    parent := some dir, fi := ⟨fs, true, (placeOf fs a).1, (placeOf fs a).2⟩ }

/-- `fat32_create` puts the entry into the directory, and makes a node if there is one left. -/
lemma wp_create_at (hl : Layout fs) {dir : ℕ} (hfs : (v.nodes dir).fi.fs = fs)
    (hchain : ChainAt fs v.fat (v.nodes dir).inode l) (hne : l ≠ []) :
    (fat32View fs).wp (fat32Create dir name) (fun r v' =>
      (r = none ∧ v' = v ∧ ¬Enters fs v (v.nodes dir) l name) ∨
        ∃ raw a l' v₁, (v.nodes dir).type.isDirectory = true ∧ fat32Parse83 name = some raw ∧
          Placed fs v l (newEntry raw 0 0) a l' v₁ ∧
          if maxVfsNodes ≤ v.used then r = none ∧ v' = v₁
          else r = some v.used ∧ v' = { v₁ with
            nodes := Function.update v.nodes v.used (newFile fs dir raw a), used :=
            v.used + 1 }) v := by
  refine View.wp_get fun s _ hs => ?_
  have hnodes : s.nodePool = v.nodes := congrArg Volume.nodes hs
  rw [hnodes]
  extract_lets nd fs'
  have hfs' : fs' = fs := hfs
  rw [hfs']
  refine View.wp_ite (fun hfile => View.wp_pure (.inl ⟨rfl, rfl, fun h => ?_⟩)) fun hdir => ?_
  · rw [h.1] at hfile
    cases hfile
  have hdir' : nd.type.isDirectory = true := by simpa using hdir
  cases hparse : fat32Parse83 name with
  | none => exact View.wp_pure (.inl ⟨rfl, rfl, fun h => h.2.1 hparse⟩)
  | some raw =>
    refine View.wp_bind (wp_insertDirent hl hchain hne) ?_
    rintro r v₁ (⟨rfl, rfl, hno⟩ | ⟨a, l', rfl, hplaced⟩)
    · exact View.wp_pure (.inl ⟨rfl, rfl, fun h => hno h.2.2⟩)
    · refine View.wp_mono (wp_allocNode _) fun r v₂ hr =>
        .inr ⟨raw, a, l', v₁, hdir', rfl, hplaced, ?_⟩
      rw [hplaced.nodes.1, hplaced.nodes.2] at hr
      exact hr

/-- What a call of `fat32_create` comes to. -/
structure Creation (fs : Fat32Fs) (v : Volume) (nd : Fat32Node) (l : List ℕ) (name : List UInt8)
    (r : Option ℕ) (v' : Volume) : Prop where
  returned : r ≠ none ↔ Enters fs v nd l name ∧ v.used < maxVfsNodes
  recorded : SameRecords fs v v' ↔ ¬Alters fs v nd l name

lemma wp_create (hl : Layout fs) {dir : ℕ} (hfs : (v.nodes dir).fi.fs = fs)
    (hchain : ChainAt fs v.fat (v.nodes dir).inode l) (hne : l ≠ []) :
    (fat32View fs).wp (fat32Create dir name) (Creation fs v (v.nodes dir) l name) v := by
  refine View.wp_mono (wp_create_at hl hfs hchain hne) ?_
  rintro r v' (⟨rfl, rfl, hno⟩ | ⟨raw, a, l', v₁, hdir, hparse, hplaced, hr⟩)
  · refine ⟨iff_of_false (fun h => h rfl) fun h => hno h.1, iff_of_true (SameRecords.refl fs v') ?_⟩
    rintro ⟨hdir, raw, hparse, hshows⟩
    refine hno ⟨hdir, by simp [hparse], ?_⟩
    rcases hshows with ⟨hslot, -⟩ | ⟨-, hnf⟩
    · exact .inl hslot
    · exact .inr hnf
  have henters : Enters fs v (v.nodes dir) l name := ⟨hdir, by simp [hparse], hplaced.accepts⟩
  have hrec : SameRecords fs v v₁ ↔ ¬Alters fs v (v.nodes dir) l name := by
    rw [hplaced.recorded hl hchain hne]
    refine not_congr ⟨fun hs => ⟨hdir, raw, hparse, hs⟩, ?_⟩
    rintro ⟨-, raw', hraw, hs⟩
    cases hparse.symm.trans hraw
    exact hs
  split_ifs at hr with hfull
  · obtain ⟨rfl, rfl⟩ := hr
    exact ⟨iff_of_false (fun h => h rfl) fun h => Nat.not_lt.mpr hfull h.2, hrec⟩
  · obtain ⟨rfl, rfl⟩ := hr
    refine ⟨iff_of_true (by simp) ⟨henters, Nat.lt_of_not_le hfull⟩, ?_⟩
    rw [← hrec]
    exact ⟨fun h => ⟨h.fat, h.entries⟩, fun h => ⟨h.fat, h.entries⟩⟩

end Fat32

end CoolFrost

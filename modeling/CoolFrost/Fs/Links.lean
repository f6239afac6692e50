import CoolFrost.Lib.Forest
import CoolFrost.Fs.Fat32.Steps
import CoolFrost.Fs.Ext2.Steps
import CoolFrost.Fs.ReadOnly

/-!
# Parent links in the drivers' node pools

The four drivers take nodes from pools that are never given back, and none of them changes the
parent of a node after it has been set.  `NodeLinks.Grows` states this for one pool; it is checked
for the steps of a driver and then holds of every function of it.
-/

namespace CoolFrost

open Program

/-- What the parent links of a pool are, and how many nodes are in use. -/
structure NodeLinks where
  parent : ℕ → Option ℕ
  used : ℕ

namespace NodeLinks

variable {P : Option ℕ → Prop} {l l' l'' : NodeLinks}

/-- Nodes are only added, with parents in `P`, and the parents of the others stay. -/
structure Grows (P : Option ℕ → Prop) (l l' : NodeLinks) : Prop where
  used_le : l.used ≤ l'.used
  parent_eq : ∀ i < l.used, l'.parent i = l.parent i
  new : ∀ i, l.used ≤ i → i < l'.used → P (l'.parent i)

lemma Grows.refl (P : Option ℕ → Prop) (l : NodeLinks) : Grows P l l :=
  ⟨le_rfl, fun _ _ => rfl, fun _ h h' => absurd h (not_le.mpr h')⟩

lemma Grows.trans (h : Grows P l l') (h' : Grows P l' l'') : Grows P l l'' where
  used_le := h.used_le.trans h'.used_le
  parent_eq i hi := (h'.parent_eq i (hi.trans_le h.used_le)).trans (h.parent_eq i hi)
  new i hi hi' := by
    rcases lt_or_ge i l'.used with hlt | hge
    · rw [h'.parent_eq i hlt]
      exact h.new i hi hlt
    · exact h'.new i hge hi'

instance {σ : Type} (view : σ → NodeLinks) :
    IsPreorder σ fun s s' => Grows P (view s) (view s') where
  refl s := .refl P (view s)
  trans _ _ _ h h' := h.trans h'

/-- The links after a node has been added. -/
def add (l : NodeLinks) (p : Option ℕ) : NodeLinks :=
  ⟨Function.update l.parent l.used p, l.used + 1⟩

lemma grows_add {p : Option ℕ} (h : P p) : Grows P l (l.add p) where
  used_le := Nat.le_succ _
  parent_eq i hi := Function.update_of_ne (Nat.ne_of_lt hi) _ _
  new i hi hi' := by
    obtain rfl : i = l.used := by simp only [add] at hi'; omega
    simpa [add] using h

/-- When no parent is allowed, no node is added. -/
lemma Grows.used_eq (h : Grows (fun _ => False) l l') : l'.used = l.used := by
  rcases h.used_le.eq_or_lt with heq | hlt
  · exact heq.symm
  · exact (h.new l.used le_rfl hlt).elim

/-- Every parent of a node in use comes before it in the pool. -/
def Closed (l : NodeLinks) : Prop := ∀ i < l.used, ∀ j, l.parent i = some j → j < i

/-- The parents of new nodes are in use already. -/
def InUse (l : NodeLinks) (p : Option ℕ) : Prop := ∀ j, p = some j → j < l.used

lemma Closed.of_grows (hc : Closed l) (h : Grows l.InUse l l') : Closed l' := by
  intro i hi j hj
  rcases lt_or_ge i l.used with hlt | hge
  · rw [h.parent_eq i hlt] at hj
    exact hc i hlt j hj
  · exact (h.new i hge hi j hj).trans_le hge

end NodeLinks

open NodeLinks

/-! ## FAT32 -/

/-- The parent links of the FAT32 driver's nodes. -/
def Fat32State.links (s : Fat32State) : NodeLinks :=
  ⟨fun i => (s.nodePool i).parent, s.nodePoolUsed⟩

namespace Fat32

variable {P : Option ℕ → Prop}

/-- A step that leaves the nodes alone. -/
private lemma keeps_of_links_eq {α : Type} {m : Program Fat32State α}
    (h : ∀ s, wlp m (fun _ s' => s'.links = s.links) s) :
    Keeps (fun s s' : Fat32State => Grows P s.links s'.links) m := by
  intro s
  refine wlp_mono (h s) fun _ s' heq => ?_
  change Grows P s.links s'.links
  rw [heq]
  exact .refl P _

lemma links_io {α : Type} (m : Program BlkDev α) (s : Fat32State) :
    wlp (io m) (fun _ s' => s'.links = s.links) s := by
  rw [io, wlp_zoom]
  exact fun _ _ _ => rfl

lemma links_lookup (fs : Fat32Fs) (c : ℕ) (s : Fat32State) :
    wlp (fat32NextCluster fs c) (fun _ s' => s'.links = s.links) s := by
  simp only [fat32NextCluster, note, loadFatSector, wlp_bind, wlp_modify, wlp_get, wlp_ite]
  split
  · simp only [wlp_pure, if_pos]
    rfl
  · refine wlp_mono (links_io _ _) fun r s' hs => ?_
    cases r with
    | none =>
      simp only [wlp_pure, Bool.false_eq_true, if_false]
      exact hs
    | some b =>
      simp only [wlp_bind, wlp_modify, wlp_pure, if_true]
      exact hs

lemma links_setEntry (fs : Fat32Fs) (c v : ℕ) (s : Fat32State) :
    wlp (fat32SetFatEntry fs c v) (fun _ s' => s'.links = s.links) s := by
  simp only [fat32SetFatEntry, note, wlp_bind, wlp_modify, wlp_get]
  have hcopies : wlp (setFatCopies fs c v) (fun _ s' => s'.links = s.links)
      { s with trace := .setEntry fs c s.blk.calls :: s.trace } := by
    refine wlp_iter (fun _ s' => s'.links = s.links) (fun copy s' hs => ?_) rfl
    simp only [wlp_ite, wlp_bind, wlp_pure]
    split
    · refine wlp_mono (links_io _ s') fun r t ht => ?_
      cases r with
      | none => simpa using ht.trans hs
      | some buf =>
        simp only [wlp_bind, wlp_ite, wlp_pure]
        refine wlp_mono (links_io _ t) fun ok u hu => ?_
        cases ok <;> simpa using hu.trans (ht.trans hs)
    · exact hs
  refine wlp_mono hcopies fun ok s' hs => ?_
  cases ok with
  | false => simpa using hs
  | true =>
    simp only [if_true, wlp_bind, wlp_modify, wlp_pure]
    split <;> exact hs

lemma step_links (α : Type) (m : Program Fat32State α) (h : Step P α m) :
    Keeps (fun s s' : Fat32State => Grows P s.links s'.links) m := by
  cases h with
  | reading h =>
    cases h with
    | read dr lba n => exact keeps_of_links_eq (links_io _)
    | lookup fs c => exact keeps_of_links_eq (links_lookup fs c)
  | setEntry fs c v => exact keeps_of_links_eq (links_setEntry fs c v)
  | write dev lba n buf =>
    refine keeps_of_links_eq fun s => ?_
    simp only [writeData, note, wlp_bind, wlp_modify]
    exact links_io _ _
  | hint fs h => exact keeps_of_links_eq fun s => by simp only [setHint, wlp_modify]; rfl
  | allocNode nd hP =>
    intro s
    simp only [allocNode, wlp_bind, wlp_get, wlp_ite, wlp_pure, wlp_modify]
    split
    · exact .refl P _
    · have hadd : Fat32State.links
          { s with nodePool := Function.update s.nodePool s.nodePoolUsed nd
                   nodePoolUsed := s.nodePoolUsed + 1 } = s.links.add nd.parent := by
        simp only [Fat32State.links, NodeLinks.add]
        congr 1
        funext i
        by_cases hi : i = s.nodePoolUsed <;> simp [hi]
      rw [hadd]
      exact grows_add hP
  | allocFs fs => exact keeps_of_links_eq fun s => by simp only [allocFs, wlp_modify]; rfl
  | setInode i v =>
    refine keeps_of_links_eq fun s => ?_
    simp only [modifyNode, wlp_modify, Fat32State.links]
    congr 1
    funext j
    by_cases hj : j = i <;> simp [hj]
  | growSize i e =>
    refine keeps_of_links_eq fun s => ?_
    simp only [modifyNode, wlp_modify, Fat32State.links]
    congr 1
    funext j
    by_cases hj : j = i <;> simp [hj]

/-- Every function of the driver only adds nodes. -/
theorem built_links {α : Type} {m : Program Fat32State α} (h : Built (Step P) m) (s : Fat32State) :
    wlp m (fun _ s' => Grows P s.links s'.links) s :=
  h.keeps (R := fun s s' : Fat32State => Grows P s.links s'.links) step_links s

lemma allocNode_links (nd : Fat32Node) (s : Fat32State) :
    wlp (allocNode nd) (fun r s' => ∀ i, r = some i → s.links.used ≤ i ∧
      i < s'.links.used ∧ s'.links.parent i = nd.parent) s := by
  simp only [allocNode, wlp_bind, wlp_get, wlp_ite, wlp_pure, wlp_modify]
  split
  · simp
  · rintro i ⟨⟩
    simp [Fat32State.links]

/-- A lookup returns a node whose parent is the directory. -/
lemma fat32Finddir_links (dir : ℕ) (name : List UInt8) (s : Fat32State) :
    wlp (fat32Finddir dir name)
      (fun r s' => ∀ i, r = some i → i < s'.links.used ∧ s'.links.parent i = some dir) s := by
  simp only [fat32Finddir, wlp_bind, wlp_get]
  intro r s' _
  rcases r with _ | _ | e
  · simp
  · simp
  · exact wlp_mono (allocNode_links _ s') fun _ _ h i hi => (h i hi).2

/-- Creating a file returns a node whose parent is the directory. -/
lemma fat32Create_links (dir : ℕ) (name : List UInt8) (s : Fat32State) :
    wlp (fat32Create dir name)
      (fun r s' => ∀ i, r = some i → i < s'.links.used ∧ s'.links.parent i = some dir) s := by
  simp only [fat32Create, wlp_bind, wlp_get, wlp_ite]
  split
  · simp
  · cases fat32Parse83 name with
    | none => simp
    | some raw =>
      simp only [wlp_bind]
      intro r s' _
      cases r with
      | none => simp
      | some p => exact wlp_mono (allocNode_links _ s') fun _ _ h i hi => (h i hi).2

/-- Mounting returns a node that is new and has no parent. -/
lemma fat32Mount_links (dev : Drive) (lba : ℕ) (s : Fat32State) :
    wlp (fat32Mount dev lba) (fun r s' => ∀ i, r = .ok i → s.links.used ≤ i ∧
      i < s'.links.used ∧ s'.links.parent i = none) s := by
  simp only [fat32Mount, wlp_bind]
  refine wlp_mono (links_io _ s) fun r s₁ h₁ => ?_
  rw [← h₁]
  cases r with
  | none => simp
  | some boot =>
    simp only [wlp_ite, wlp_bind, wlp_get, wlp_pure, allocFs, wlp_modify]
    split_ifs
    all_goals try simp only [false_implies, implies_true]
    refine wlp_mono (allocNode_links _ _) fun r s' h => ?_
    cases r with
    | none => simp
    | some root =>
      rw [wlp_pure]
      rintro i ⟨⟩
      exact h root rfl

end Fat32

/-! ## ext2 -/

/-- The parent links of the ext2 driver's nodes. -/
def Ext2State.links (s : Ext2State) : NodeLinks := ⟨fun i => (s.nodePool i).parent, s.nodePoolUsed⟩

namespace Ext2

variable {P : Option ℕ → Prop}

lemma links_io {α : Type} (m : Program BlkDev α) (s : Ext2State) :
    wlp (io m) (fun _ s' => s'.links = s.links) s := by
  rw [io, wlp_zoom]
  exact fun _ _ _ => rfl

lemma step_links (α : Type) (m : Program Ext2State α) (h : Step P α m) :
    Keeps (fun s s' : Ext2State => Grows P s.links s'.links) m := by
  intro s
  have hio : ∀ {β : Type} (m : Program BlkDev β),
      wlp (io m) (fun _ s' => Grows P s.links s'.links) s := by
    intro β m
    refine wlp_mono (links_io m s) fun _ s' heq => ?_
    rw [heq]
    exact .refl P _
  cases h with
  | lookup h =>
    cases h with
    | reading h =>
      cases h with
      | read dr lba n => exact hio _
    | allocNode nd hP =>
      simp only [allocNode, wlp_bind, wlp_get, wlp_ite, wlp_pure, wlp_modify]
      split
      · exact .refl P _
      · have hadd : Ext2State.links
            { s with nodePool := Function.update s.nodePool s.nodePoolUsed nd
                     nodePoolUsed := s.nodePoolUsed + 1 } = s.links.add nd.parent := by
          simp only [Ext2State.links, NodeLinks.add]
          congr 1
          funext i
          by_cases hi : i = s.nodePoolUsed <;> simp [hi]
        rw [hadd]
        exact grows_add hP
  | write dr lba n buf => exact hio _
  | allocFs =>
    simp only [allocFs, wlp_modify]
    exact .refl P _
  | setSize i v =>
    have heq : Ext2State.links { s with
        nodePool := Function.update s.nodePool i { s.nodePool i with size := v } } = s.links := by
      simp only [Ext2State.links]
      congr 1
      funext j
      by_cases hj : j = i <;> simp [hj]
    simp only [modifyNode, wlp_modify, heq]
    exact .refl P _

/-- Every function of the driver only adds nodes. -/
theorem built_links {α : Type} {m : Program Ext2State α} (h : Built (Step P) m) (s : Ext2State) :
    wlp m (fun _ s' => Grows P s.links s'.links) s :=
  h.keeps (R := fun s s' : Ext2State => Grows P s.links s'.links) step_links s

lemma allocNode_links (nd : Ext2Node) (s : Ext2State) :
    wlp (allocNode nd) (fun r s' => ∀ i, r = some i → s.links.used ≤ i ∧
      i < s'.links.used ∧ s'.links.parent i = nd.parent) s := by
  simp only [allocNode, wlp_bind, wlp_get, wlp_ite, wlp_pure, wlp_modify]
  split
  · simp
  · rintro i ⟨⟩
    simp [Ext2State.links]

/-- A lookup returns a node whose parent is the directory. -/
lemma ext2Finddir_links (dir : ℕ) (name : List UInt8) (s : Ext2State) :
    wlp (ext2Finddir dir name)
      (fun r s' => ∀ i, r = some i → i < s'.links.used ∧ s'.links.parent i = some dir) s := by
  simp only [ext2Finddir, wlp_bind, wlp_get]
  intro r s₁ _
  cases r with
  | none => simp
  | some inode =>
    simp only [wlp_bind]
    intro w s₂ _
    cases w with
    | found p =>
      simp only [wlp_bind]
      intro r s' _
      cases r with
      | none => simp
      | some child => exact wlp_mono (allocNode_links _ s') fun _ _ h i hi => (h i hi).2
    | ended => simp
    | badBlock => simp
    | badRecord => simp

/-- Creating a file returns a node whose parent is the directory. -/
lemma ext2Create_links (dir : ℕ) (name : List UInt8) (s : Ext2State) :
    wlp (ext2Create dir name)
      (fun r s' => ∀ i, r = some i → i < s'.links.used ∧ s'.links.parent i = some dir) s := by
  simp only [ext2Create, finishNewFileNode, wlp_bind, wlp_get, wlp_ite, wlp_pure]
  split_ifs
  all_goals try simp only [false_implies, implies_true]
  intro ino s₁ _
  split_ifs
  intro ok s₂ _
  cases ok with
  | false => exact fun _ _ _ => trivial
  | true =>
    intro ok s₃ _
    cases ok with
    | false => trivial
    | true => exact wlp_mono (allocNode_links _ s₃) fun _ _ h i hi => (h i hi).2

/-- Mounting returns a node that is new and has no parent. -/
lemma ext2Mount_links (dev : Drive) (lba : ℕ) (s : Ext2State) :
    wlp (ext2Mount dev lba) (fun r s' => ∀ i, r = .ok i → s.links.used ≤ i ∧
      i < s'.links.used ∧ s'.links.parent i = none) s := by
  simp only [ext2Mount, wlp_bind]
  refine wlp_mono (links_io _ s) fun r s₁ h₁ => ?_
  rw [← h₁]
  cases r with
  | none => simp
  | some boot =>
    simp only [wlp_ite, wlp_bind, wlp_get, wlp_pure, allocFs, wlp_modify]
    split_ifs
    all_goals try simp only [false_implies, implies_true]
    refine wlp_mono (allocNode_links _ _) fun r s' h => ?_
    cases r with
    | none => simp
    | some root =>
      rw [wlp_pure]
      rintro i ⟨⟩
      exact h root rfl

end Ext2

/-! ## The read-only drivers -/

/-- The parent links of a read-only driver's nodes. -/
def RoState.links (s : RoState) : NodeLinks := ⟨fun i => (s.nodePool i).parent, s.nodePoolUsed⟩

namespace RoFs

variable {P : Option ℕ → Prop}

lemma links_io {α : Type} (m : Program BlkDev α) (s : RoState) :
    wlp (io m) (fun _ s' => s'.links = s.links) s := by
  rw [io, wlp_zoom]
  exact fun _ _ _ => rfl

lemma allocNode_links (nd : RoNode) (hP : P nd.parent) (s : RoState) :
    wlp (allocNode nd) (fun r s' => Grows P s.links s'.links ∧ ∀ i, r = some i →
      s.links.used ≤ i ∧ i < s'.links.used ∧ s'.links.parent i = nd.parent) s := by
  simp only [allocNode, wlp_bind, wlp_get, wlp_ite, wlp_pure, wlp_modify]
  split
  · exact ⟨.refl P _, by simp⟩
  · have hadd : RoState.links
        { s with nodePool := Function.update s.nodePool s.nodePoolUsed nd
                 nodePoolUsed := s.nodePoolUsed + 1 } = s.links.add nd.parent := by
      simp only [RoState.links, NodeLinks.add]
      congr 1
      funext i
      by_cases hi : i = s.nodePoolUsed <;> simp [hi]
    rw [hadd]
    refine ⟨grows_add hP, ?_⟩
    rintro i ⟨⟩
    simp [NodeLinks.add, RoState.links]

/-- A lookup only adds a node, and returns one whose parent is the directory. -/
lemma finddir_links (F : RoFormat) (dir : ℕ) (name : List UInt8) (hP : P (some dir)) (s : RoState) :
    wlp (finddir F dir name) (fun r s' => Grows P s.links s'.links ∧ ∀ i, r = some i →
      i < s'.links.used ∧ s'.links.parent i = some dir) s := by
  simp only [finddir, wlp_bind, wlp_get]
  refine wlp_mono (links_io _ s) fun r s₁ h₁ => ?_
  rw [← h₁]
  cases r with
  | none => simpa using Grows.refl P _
  | some e =>
    refine wlp_mono (allocNode_links (P := P) ⟨_, _, _, _, some dir, _⟩ hP s₁) fun r s' h => ?_
    exact ⟨h.1, fun i hi => (h.2 i hi).2⟩

lemma readdir_links (F : RoFormat) (node index : ℕ) (s : RoState) :
    wlp (readdir F node index) (fun _ s' => Grows P s.links s'.links) s := by
  simp only [readdir, wlp_bind, wlp_get]
  refine wlp_mono (links_io _ s) fun r s' h => ?_
  rw [h]
  exact .refl P _

lemma read_links (F : RoFormat) (node offset size : ℕ) (buf : Bytes) (s : RoState) :
    wlp (read F node offset size buf) (fun _ s' => Grows P s.links s'.links) s := by
  simp only [read, wlp_bind, wlp_get]
  refine wlp_mono (links_io _ s) fun r s' h => ?_
  rw [h]
  exact .refl P _

/-- Mounting only adds a node, and returns one that is new and has no parent. -/
lemma mount_links (F : RoFormat) (dev : Drive) (lba : ℕ) (hP : P none) (s : RoState) :
    wlp (mount F dev lba) (fun r s' => Grows P s.links s'.links ∧ ∀ i, r = .ok i →
      s.links.used ≤ i ∧ i < s'.links.used ∧ s'.links.parent i = none) s := by
  simp only [mount, wlp_bind]
  refine wlp_mono (links_io _ s) fun r s₁ h₁ => ?_
  rw [← h₁]
  cases r with
  | none => simpa using Grows.refl P _
  | some boot =>
    dsimp only
    cases F.check boot with
    | some rc => simpa using Grows.refl P _
    | none =>
      simp only [wlp_ite, wlp_bind, wlp_get, wlp_pure, wlp_modify]
      split_ifs
      · exact ⟨.refl P _, by simp⟩
      refine wlp_mono (links_io _ _) fun ok s₂ h₂ => ?_
      have h₂' : s₂.links = s₁.links := h₂
      rw [← h₂']
      cases ok with
      | false => simpa using Grows.refl P _
      | true =>
        simp only [if_true]
        refine wlp_mono (allocNode_links (P := P) (rootNode F _) hP s₂) fun r s' h => ?_
        cases r with
        | none => simpa using h.1
        | some root =>
          rw [wlp_pure]
          refine ⟨h.1, ?_⟩
          rintro i ⟨⟩
          exact h.2 root rfl

end RoFs

end CoolFrost

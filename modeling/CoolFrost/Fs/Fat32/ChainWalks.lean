import CoolFrost.Fs.Fat32.Totality

/-!
# FAT32: walks along a chain

A walk along a chain ends at an end marker; the driver does not notice that it has been at a cluster
before.  What a lookup finds is the entry of the cluster in the first copy of the table, or that in
the cached sector if it is the one asked for (`Seen`).  A walk ends if no infinite sequence of
clusters can be seen from where it starts, that is, if the steps from cluster to cluster are
accessible there (`Acc`); a walk over a directory may also end because of what is in a sector.
`fat32_unlink` needs no such condition as long as no transfer fails, since it frees the clusters
that it leaves behind.
-/

namespace CoolFrost

open Program

namespace Fat32

variable {fs : Fat32Fs} {α γ : Type}

/-! ## What a lookup finds -/

/-- The entry of a cluster in the first copy of the table. -/
def diskEntry (fs : Fat32Fs) (s : Fat32State) (c : ℕ) : ℕ :=
  Bytes.le32 (s.blk.disk fs.dev) (primarySector fs c * 512 + u32 (c * 4) % 512) % 2 ^ 28

/-- The entry of a cluster in the cached sector. -/
def bufEntry (s : Fat32State) (c : ℕ) : ℕ := Bytes.le32 s.fatBuf (u32 (c * 4) % 512) % 2 ^ 28

/-- A lookup of the cluster `c` may find `n`. -/
def Seen (fs : Fat32Fs) (s : Fat32State) (c n : ℕ) : Prop :=
  n = diskEntry fs s c ∨ (cacheHit fs (primarySector fs c) s = true ∧ n = bufEntry s c)

/-- What reading steps do: they change no drive, and what can be seen after them could be seen
before. -/
structure Looks (s s' : Fat32State) : Prop where
  disk : s'.blk.disk = s.blk.disk
  fails : s'.blk.fails = s.blk.fails
  seen : ∀ fs c n, Seen fs s' c n → Seen fs s c n

instance : IsPreorder Fat32State Looks where
  refl _ := ⟨rfl, rfl, fun _ _ _ h => h⟩
  trans _ _ _ h h' :=
    ⟨h'.disk.trans h.disk, h'.fails.trans h.fails, fun fs c n hn =>
      h.seen fs c n (h'.seen fs c n hn)⟩

/-- A lookup returns what could be seen, or the end marker if the table cannot be read. -/
lemma wlp_next (fs : Fat32Fs) (c : ℕ) (s : Fat32State) :
    wlp (fat32NextCluster fs c) (fun n s' =>
      (Seen fs s c n ∨ (n = fat32Eoc ∧ ¬s.blk.NoFail)) ∧ Looks s s') s := by
  simp only [fat32NextCluster, note, loadFatSector, wlp_bind, wlp_modify, wlp_get, wlp_ite]
  split
  · rename_i hhit
    simp only [wlp_pure, if_pos]
    exact ⟨.inl (.inr ⟨hhit, rfl⟩), rfl, rfl, fun _ _ _ h => h⟩
  · refine wlp_mono (wlp_read _ _ _ _) fun r s' hpost => ?_
    obtain ⟨hs, hr⟩ := hpost
    subst hs
    cases r with
    | none =>
      have hfail : ¬s.blk.NoFail := fun h => by
        rw [h] at hr
        cases hr
      simp only [wlp_pure, Bool.false_eq_true, if_false]
      exact ⟨.inr ⟨trivial, hfail⟩, rfl, rfl, fun _ _ _ h => h⟩
    | some b =>
      simp only [wlp_bind, wlp_modify, wlp_pure, if_true]
      split at hr
      · cases hr
      · cases hr
        -- the cached sector is now one of the drive, so it shows what the drive holds
        have hbuf : ∀ d, primarySector fs d = fs.fatStartLba + u32 (c * 4) / 512 →
            Bytes.le32 (Bytes.clip 512 (Bytes.shift (s.blk.disk fs.dev)
              ((fs.fatStartLba + u32 (c * 4) / 512) * 512))) (u32 (d * 4) % 512) % 2 ^ 28 =
              diskEntry fs s d := by
          intro d hd
          rw [Bytes.le32_clip (entryOff_le d), Bytes.le32_shift, ← hd]
          rfl
        refine ⟨.inl (.inl (hbuf c rfl)), rfl, rfl, fun fs' d n h => ?_⟩
        rcases h with h | ⟨hhit, h⟩
        · exact .inl h
        · simp only [cacheHit, decide_eq_true_eq] at hhit
          refine .inl (h.trans ?_)
          change Bytes.le32 (Bytes.clip 512 _) _ % 2 ^ 28 = _
          rw [Bytes.le32_clip (entryOff_le d), Bytes.le32_shift, hhit.1, hhit.2]
          rfl

lemma wp_next' (fs : Fat32Fs) (c : ℕ) (s : Fat32State) :
    wp (fat32NextCluster fs c) (fun n s' => (Seen fs s c n ∨ n = fat32Eoc) ∧ Looks s s') s :=
  wp_mono ((total_next fs c s).wp_of_wlp (wlp_next fs c s)) fun _ _ h =>
    ⟨h.1.imp_right And.left, h.2⟩

/-! ## Walks over a directory -/

/-- The sector `lba` of a drive. -/
def sectorOf (s : Fat32State) (dev : Drive) (lba : ℕ) : Bytes :=
  Bytes.clip 512 (Bytes.shift (s.blk.disk dev) (lba * 512))

/-- A sector of the cluster `c` ends the walk, whatever came before. -/
def StopsAt (fs : Fat32Fs) (s : Fat32State) (visit : ℕ → Bytes → γ → γ ⊕ α) (c : ℕ) : Prop :=
  ∃ k < fs.sectorsPerCluster, ∀ acc, ∃ a,
    visit (clusterToLba fs c + k) (sectorOf s fs.dev (clusterToLba fs c + k)) acc = .inr a

/-- The walk over a directory may go from the cluster `c` to the cluster `n`. -/
def DirStep (fs : Fat32Fs) (s : Fat32State) (visit : ℕ → Bytes → γ → γ ⊕ α) (n c : ℕ) : Prop :=
  c < fat32Eoc ∧ n < fat32Eoc ∧ Seen fs s c n ∧ ¬StopsAt fs s visit c

/-- The sectors of a cluster are walked to the end unless one of them ends the walk. -/
lemma sectorWalk_stops (hb : InBounds fs) (onFail : α) (visit : ℕ → Bytes → γ → γ ⊕ α) (lba : ℕ)
    (acc : γ) {s₀ s : Fat32State} (hs : Looks s₀ s) :
    wp (sectorWalk fs onFail visit lba acc) (fun r s' => Looks s₀ s' ∧
      ((∃ k < fs.sectorsPerCluster, ∀ acc, ∃ a,
        visit (lba + k) (sectorOf s₀ fs.dev (lba + k)) acc = .inr a) → ∃ a, r = .inr a)) s := by
  have hspc := hb.spc_lt
  refine wp_iter (fun p s' => Looks s₀ s' ∧
      ((∃ k < fs.sectorsPerCluster, ∀ acc, ∃ a,
        visit (lba + k) (sectorOf s₀ fs.dev (lba + k)) acc = .inr a) →
        ∃ k < fs.sectorsPerCluster, p.1 ≤ k ∧ ∀ acc, ∃ a,
          visit (lba + k) (sectorOf s₀ fs.dev (lba + k)) acc = .inr a))
    (fun p _ => fs.sectorsPerCluster - p.1) ?_
    ⟨hs, fun ⟨k, hk, h⟩ => ⟨k, hk, Nat.zero_le k, h⟩⟩ (lt_loopFuel (by dsimp only; omega))
  rintro ⟨k, acc⟩ s₁ ⟨hs₁, hstop⟩
  refine wp_ite_intro (fun hk => ?_) fun hk => (wp_pure _ _ _).mpr ⟨hs₁, fun hex => ?_⟩
  · rw [wp_bind]
    refine wp_mono ((total_read fs.dev (lba + k) 1 s₁).wp_of_wlp (wlp_read _ _ _ s₁)) ?_
    rintro r s₂ ⟨rfl, hr⟩
    have hs₂ : Looks s₀ { s₁ with blk := { s₁.blk with calls := s₁.blk.calls + 1 } } :=
      ⟨hs₁.disk, hs₁.fails, hs₁.seen⟩
    cases r with
    | none => exact (wp_pure _ _ _).mpr ⟨hs₂, fun _ => ⟨_, rfl⟩⟩
    | some buf =>
      have hbuf : buf = sectorOf s₀ fs.dev (lba + k) := by
        split at hr
        · cases hr
        · rw [Option.some.inj hr, hs₁.disk]
          rfl
      cases hv : visit (lba + k) buf acc with
      | inr a => exact (by simp only [hv, wp_pure]; exact ⟨hs₂, fun _ => ⟨_, rfl⟩⟩)
      | inl acc' =>
        simp only [hv, wp_pure, Sum.elim_inl]
        refine ⟨⟨hs₂, fun hex => ?_⟩, by omega⟩
        obtain ⟨j, hj, hle, hall⟩ := hstop hex
        refine ⟨j, hj, ?_, hall⟩
        -- the sector just visited is not the one that ends the walk
        rcases Nat.lt_or_ge k j with hlt | hge
        · exact hlt
        · obtain rfl : k = j := Nat.le_antisymm hle hge
          obtain ⟨a, ha⟩ := hall acc
          rw [← hbuf, hv] at ha
          cases ha
  · obtain ⟨j, hj, hle, -⟩ := hstop hex
    exact absurd (lt_of_le_of_lt hle hj) hk

/-- A walk over a directory ends if the steps it may take are accessible from where it starts. -/
lemma halts_dirWalk (hb : InBounds fs) (onFail : α) (visit : ℕ → Bytes → γ → γ ⊕ α) (acc : γ)
    {c : ℕ} {s : Fat32State} (h : Acc (DirStep fs s visit) c) :
    wp (dirWalk fs onFail visit acc c) (fun _ s' => Looks s s') s := by
  refine wp_iter (fun p s' => Looks s s' ∧ Acc (DirStep fs s visit) p.1)
    (fun p _ => roundsLeft (DirStep fs s visit) fat32Eoc (· < fat32Eoc) p.1) ?_
    ⟨refl_of Looks s, h⟩ (lt_loopFuel (lt_of_le_of_lt (roundsLeft_le _ _ _ _) (by decide)))
  · rintro ⟨c, last, acc⟩ s₁ ⟨hs₁, hacc⟩
    refine wp_ite_intro (fun hc => ?_) fun _ => (wp_pure _ _ _).mpr hs₁
    rw [wp_bind]
    refine wp_mono (sectorWalk_stops hb onFail visit _ acc hs₁) ?_
    rintro (acc' | a) s₂ ⟨hs₂, hstop⟩
    · rw [wp_bind]
      refine wp_mono (wp_next' fs c s₂) fun n s₃ ⟨hn, hs₃⟩ => ?_
      have hs₀₃ : Looks s s₃ := trans_of Looks hs₂ hs₃
      have hstep : n < fat32Eoc → DirStep fs s visit n c := by
        intro hlt
        refine ⟨hc, hlt, hs₂.seen fs c n (hn.resolve_right (ne_of_lt hlt)), fun hst => ?_⟩
        obtain ⟨a, ha⟩ := hstop hst
        cases ha
      refine (wp_pure _ _ _).mpr ⟨⟨trans_of Looks hs₂ hs₃, ?_⟩, ?_⟩
      · rcases Nat.lt_or_ge n fat32Eoc with hlt | hge
        · exact hacc.inv (hstep hlt)
        · exact Acc.intro n fun m hm => absurd hm.1 (not_lt.mpr hge)
      · exact roundsLeft_lt hc hacc fun hlt => ⟨hstep hlt, hlt⟩
    · exact (wp_pure _ _ _).mpr hs₂

/-! ## Walks over a file -/

/-- The walk over the chain of a file may go from the cluster `c` to the cluster `n`. -/
def FileStep (fs : Fat32Fs) (s : Fat32State) (n c : ℕ) : Prop := n < fat32Eoc ∧ Seen fs s c n

/-- The walk to the last cluster of a chain. -/
lemma halts_chainTail (fs : Fat32Fs) {c : ℕ} {s : Fat32State} (h : Acc (FileStep fs s) c) :
    Halts (chainTail fs c) s := by
  refine wp_iter (fun p s' => Looks s s' ∧ Acc (FileStep fs s) p.1)
    (fun p _ => reachCount (FileStep fs s) fat32Eoc p.1) ?_ ⟨refl_of Looks s, h⟩
    (lt_loopFuel (lt_of_le_of_lt (reachCount_le _ _ _) (by decide)))
  rintro ⟨c, allocated⟩ s₁ ⟨hs₁, hacc⟩
  rw [wp_bind]
  refine wp_mono (wp_next' fs c s₁) fun n s₂ ⟨hn, hs₂⟩ => ?_
  refine wp_ite_intro (fun hlt => ?_) fun _ => (wp_pure _ _ _).mpr trivial
  have hstep : FileStep fs s n c := ⟨hlt, hs₁.seen fs c n (hn.resolve_right (ne_of_lt hlt))⟩
  exact (wp_pure _ _ _).mpr
    ⟨⟨trans_of Looks hs₁ hs₂, hacc.inv hstep⟩, reachCount_lt hacc hstep hlt⟩

/-- The walk that measures a chain; it meets fewer than `FAT32_EOC` clusters. -/
lemma measureChain_short (fs : Fat32Fs) {c : ℕ} {s : Fat32State} (h : Acc (FileStep fs s) c) :
    wp (measureChain fs c) (fun r _ => r.1 < 2 ^ 32) s := by
  refine wp_iter (fun p s' => Looks s s' ∧ Acc (FileStep fs s) p.1 ∧
      p.2.1 + reachCount (FileStep fs s) fat32Eoc p.1 ≤ fat32Eoc + 1)
    (fun p _ => reachCount (FileStep fs s) fat32Eoc p.1) ?_
    ⟨refl_of Looks s, h, ?_⟩ (lt_loopFuel (lt_of_le_of_lt (reachCount_le _ _ _) (by decide)))
  · rintro ⟨c, len, ok⟩ s₁ ⟨hs₁, hacc, hlen⟩
    rw [wp_bind]
    refine wp_mono (wp_next' fs c s₁) fun n s₂ ⟨hn, hs₂⟩ => ?_
    refine wp_ite_intro (fun hlt => ?_) fun _ => (wp_pure _ _ _).mpr ?_
    · have hstep : FileStep fs s n c := ⟨hlt, hs₁.seen fs c n (hn.resolve_right (ne_of_lt hlt))⟩
      have hdown := reachCount_lt hacc hstep hlt
      refine (wp_pure _ _ _).mpr ⟨⟨trans_of Looks hs₁ hs₂, hacc.inv hstep, ?_⟩, hdown⟩
      dsimp only at hlen hdown ⊢
      omega
    · have heoc : fat32Eoc + 1 < 2 ^ 32 := by decide
      dsimp only at hlen
      change len < 2 ^ 32
      omega
  · have hle := reachCount_le (FileStep fs s) fat32Eoc c
    dsimp only
    omega

/-! ## Writing entries -/

/-- The entries of a sector after one of them has been patched. -/
lemma le32_patchEntry (d : Bytes) {a b : ℕ} (v : ℕ) (ha : a % 4 = 0) (hb : b % 4 = 0) :
    Bytes.le32 (patchEntry d a v) b % 2 ^ 28 =
      if a = b then v % 2 ^ 28 else Bytes.le32 d b % 2 ^ 28 := by
  split
  · rename_i hab
    rw [hab, patchEntry, Bytes.le32_put32_self,
      Nat.mod_eq_of_lt (mergeEntry_lt v (Bytes.le32_lt d b)), mergeEntry_low]
  · rw [patchEntry, Bytes.put32, Bytes.le32_blit_of_disjoint (by omega)]

/-- The state after the entry of `c` has been written: an entry shows what it showed before or the
value written. -/
structure Entered (fs : Fat32Fs) (c v : ℕ) (s s' : Fat32State) : Prop where
  fails : s'.blk.fails = s.blk.fails
  seen : ∀ d n, Seen fs s' d n → Seen fs s d n ∨ n = v % 2 ^ 28

/-- The state of the loop over the copies before copy `copy`. -/
structure Entering (fs : Fat32Fs) (c v : ℕ) (s : Fat32State) (copy : ℕ) (s' : Fat32State) :
    Prop where
  fails : s'.blk.fails = s.blk.fails
  buf : s'.fatBuf = s.fatBuf
  dev : s'.cachedFatDev = s.cachedFatDev
  lba : s'.cachedFatLba = s.cachedFatLba
  disk : ∀ d, diskEntry fs s' d = diskEntry fs s d ∨ diskEntry fs s' d = v % 2 ^ 28
  own : 1 ≤ copy → diskEntry fs s' c = v % 2 ^ 28

namespace Entering

variable {c v copy : ℕ} {s s' : Fat32State}

lemma cacheHit_eq (h : Entering fs c v s copy s') (lba : ℕ) :
    cacheHit fs lba s' = cacheHit fs lba s := by
  rw [cacheHit, cacheHit, h.dev, h.lba]

/-- The entries that the loop leaves, as long as the cached sector is as it was. -/
lemma entered (h : Entering fs c v s copy s') : Entered fs c v s s' := by
  refine ⟨h.fails, fun d n hn => ?_⟩
  rcases hn with hn | ⟨hhit, hn⟩
  · rcases h.disk d with hd | hd
    · exact .inl (.inl (hn.trans hd))
    · exact .inr (hn.trans hd)
  · rw [h.cacheHit_eq] at hhit
    rw [bufEntry, h.buf] at hn
    exact .inl (.inr ⟨hhit, hn⟩)

/-- A copy is written. -/
lemma write (h : Entering fs c v s copy s') {calls : ℕ} {log : List BlkWrite} :
    Entering fs c v s (copy + 1)
      { s' with blk :=
        { s'.blk with
          calls := calls, log := log
          disk := Function.update s'.blk.disk fs.dev (patchEntry (s'.blk.disk fs.dev)
            ((fs.fatStartLba + copy * fs.fatSize + u32 (c * 4) / 512) * 512 + u32 (c * 4) % 512) v)
            } } := by
  have haligned : ∀ lba d, (lba * 512 + u32 (d * 4) % 512) % 4 = 0 := fun lba d => by
    unfold u32
    omega
  have ha4 := haligned (fs.fatStartLba + copy * fs.fatSize + u32 (c * 4) / 512) c
  set a := (fs.fatStartLba + copy * fs.fatSize + u32 (c * 4) / 512) * 512 + u32
    (c * 4) % 512 with ha
  have hentry : ∀ d, diskEntry fs { s' with blk := { s'.blk with
      calls := calls, log := log
      disk := Function.update s'.blk.disk fs.dev (patchEntry (s'.blk.disk fs.dev) a v) } } d =
      if a = primarySector fs d * 512 + u32 (d * 4) % 512 then v % 2 ^ 28
          else diskEntry fs s' d := by
    intro d
    change Bytes.le32 (Function.update s'.blk.disk fs.dev
      (patchEntry (s'.blk.disk fs.dev) a v) fs.dev)
      (primarySector fs d * 512 + u32 (d * 4) % 512) % 2 ^ 28 = _
    rw [Function.update_self, le32_patchEntry _ _ ha4 (haligned _ _), diskEntry]
  refine ⟨h.fails, h.buf, h.dev, h.lba, fun d => ?_, fun _ => ?_⟩
  · rw [hentry]
    split
    · exact .inr rfl
    · exact h.disk d
  · rw [hentry]
    split
    · rfl
    · rename_i hne
      refine h.own (Nat.one_le_iff_ne_zero.mpr fun h0 => hne ?_)
      rw [ha, h0, primarySector, Nat.zero_mul, Nat.add_zero]

end Entering

/-- The loop over the copies ends with all of them written unless a transfer fails. -/
lemma entering_setFatCopies (hb : InBounds fs) (c v : ℕ) (s : Fat32State) :
    wp (setFatCopies fs c v) (fun ok s' => (∃ copy, Entering fs c v s copy s' ∧
      (ok = true → 1 ≤ copy)) ∧ (s.blk.NoFail → ok = true)) s := by
  have hcopies := hb.copies
  have hcopies_lt := hb.copies_lt
  refine wp_iter (fun copy s' => Entering fs c v s copy s') (fun copy _ => fs.numFats - copy) ?_
    ⟨rfl, rfl, rfl, rfl, fun _ => .inl rfl, fun h => absurd h (by decide)⟩ (lt_loopFuel (by omega))
  intro copy s₁ h₁
  refine wp_ite_intro (fun hlt => ?_) fun hge => ?_
  · rw [wp_bind]
    refine wp_mono ((total_read _ _ _ s₁).wp_of_wlp (wlp_read _ _ _ s₁)) ?_
    rintro r s₂ ⟨rfl, hr⟩
    cases r with
    | none =>
      refine (wp_pure _ _ _).mpr
        ⟨⟨copy, ⟨h₁.fails, h₁.buf, h₁.dev, h₁.lba, h₁.disk, h₁.own⟩, ?_⟩, ?_⟩
      · exact fun h => absurd h (by decide)
      · intro hnf
        rw [h₁.fails, hnf] at hr
        exact absurd hr (by simp)
    | some buf =>
      have hbuf : buf = Bytes.clip 512 (Bytes.shift (s₁.blk.disk fs.dev)
          ((fs.fatStartLba + copy * fs.fatSize + u32 (c * 4) / 512) * 512)) := by
        split at hr
        · cases hr
        · exact Option.some.inj hr
      simp only [wp_bind]
      refine wp_mono ((total_write _ _ _ _ _).wp_of_wlp (wlp_write _ _ _ _ _)) ?_
      rintro ok s₃ ⟨hok, log, rfl⟩
      dsimp only at hok
      cases hfail : s₁.blk.fails (s₁.blk.calls + 1) with
      | true =>
        rw [hfail] at hok
        subst hok
        simp only [Bool.not_true, Bool.false_eq_true, if_false, if_true, wp_pure, Sum.elim_inr]
        refine ⟨⟨copy, ⟨h₁.fails, h₁.buf, h₁.dev, h₁.lba, h₁.disk, h₁.own⟩, ?_⟩, ?_⟩
        · exact fun h => h.elim
        · intro hnf
          rw [h₁.fails, hnf] at hfail
          exact absurd hfail (by decide)
      | false =>
        rw [hfail] at hok
        subst hok
        simp only [Bool.not_false, Bool.false_eq_true, if_false, if_true, wp_pure, Sum.elim_inl]
        refine ⟨?_, by omega⟩
        rw [hbuf, writeSectors_patch _ _ _ _ _ (entryOff_le c)]
        exact h₁.write
  · exact (wp_pure _ _ _).mpr ⟨⟨copy, h₁, fun _ => by omega⟩, fun _ => rfl⟩

/-- `fat32_set_fat_entry` makes an entry show the value written, or leaves it. -/
lemma entered_setEntry (hb : InBounds fs) (c v : ℕ) (s : Fat32State) :
    wp (fat32SetFatEntry fs c v) (fun ok s' => Entered fs c v s s' ∧
      (ok = true → ∀ n, Seen fs s' c n → n = v % 2 ^ 28) ∧ (s.blk.NoFail → ok = true)) s := by
  simp only [fat32SetFatEntry, note, wp_bind, wp_get, wp_modify]
  refine wp_mono (entering_setFatCopies hb c v _) ?_
  rintro ok s₁ ⟨⟨copy, h₁, hcopy⟩, hnf⟩
  have h₁' : Entering fs c v s copy s₁ := ⟨h₁.fails, h₁.buf, h₁.dev, h₁.lba, h₁.disk, h₁.own⟩
  cases ok with
  | false => exact (wp_pure _ _ _).mpr ⟨h₁'.entered, fun h => absurd h (by decide), hnf⟩
  | true =>
    simp only [if_true, wp_bind, wp_modify, wp_pure]
    have hown := h₁'.own (hcopy rfl)
    have hoff : u32 (c * 4) % 512 % 4 = 0 := by unfold u32; omega
    split
    · rename_i hhit
      -- the cached sector is patched like the one on the drive
      have hbuf : ∀ d, bufEntry { s₁ with fatBuf := patchEntry s₁.fatBuf (u32 (c * 4) % 512) v } d =
          if u32 (c * 4) % 512 = u32 (d * 4) % 512 then v % 2 ^ 28 else bufEntry s₁ d :=
        fun d => le32_patchEntry _ _ hoff (by unfold u32; omega)
      refine ⟨⟨h₁'.fails, fun d n hn => ?_⟩, fun _ n hn => ?_, fun _ => trivial⟩
      · rcases hn with hn | ⟨hhit', hn⟩
        · exact h₁'.entered.seen d n (.inl hn)
        · rw [hbuf] at hn
          split at hn
          · exact .inr hn
          · exact h₁'.entered.seen d n (.inr ⟨hhit', hn⟩)
      · rcases hn with hn | ⟨-, hn⟩
        · exact hn.trans hown
        · rw [hbuf, if_pos rfl] at hn
          exact hn
    · rename_i hmiss
      refine ⟨h₁'.entered, fun _ n hn => ?_, fun _ => trivial⟩
      rcases hn with hn | ⟨hhit, -⟩
      · exact hn.trans hown
      · exact absurd hhit hmiss

/-! ## Freeing a chain -/

/-- The loop that frees a chain goes on at the cluster `c`. -/
def Live (c : ℕ) : Prop := c ≠ 0 ∧ c < fat32Eoc

/-- The loop that frees a chain may go from the cluster `c` to the cluster `n`. -/
def FreeStep (fs : Fat32Fs) (s : Fat32State) (n c : ℕ) : Prop := Live c ∧ Live n ∧ Seen fs s c n

/-- Freeing a chain that ends comes to an end, also if transfers fail: what is written on the way
only ever makes the chain shorter. -/
lemma halts_freeChain_of_acc (hb : InBounds fs) {c : ℕ} {s : Fat32State}
    (h : Acc (FreeStep fs s) c) : Halts (freeChain fs c) s := by
  refine wp_iter (fun c s' => (∀ d n, Seen fs s' d n → Seen fs s d n ∨ n = 0) ∧
      Acc (FreeStep fs s) c) (fun c _ => roundsLeft (FreeStep fs s) fat32Eoc Live c) ?_
    ⟨fun d n hn => .inl hn, h⟩ (lt_loopFuel (lt_of_le_of_lt (roundsLeft_le _ _ _ _) (by decide)))
  rintro c s₁ ⟨hseen, hacc⟩
  refine wp_ite_intro (fun hc => ?_) fun _ => (wp_pure _ _ _).mpr trivial
  simp only [wp_bind]
  refine wp_mono (wp_next' fs c s₁) fun n s₂ hpost => ?_
  obtain ⟨hn, hs₂⟩ := hpost
  refine wp_mono (entered_setEntry hb c 0 s₂) fun ok s₃ hpost => ?_
  obtain ⟨hs₃, _⟩ := hpost
  have hstep : Live n → FreeStep fs s n c := fun hlive =>
    ⟨hc, hlive, (hseen c n (hn.resolve_right (ne_of_lt hlive.2))).resolve_right hlive.1⟩
  refine (wp_pure _ _ _).mpr ⟨⟨fun d m hm => ?_, ?_⟩, ?_⟩
  · rcases hs₃.seen d m hm with hm | hm
    · exact hseen d m (hs₂.seen fs d m hm)
    · exact .inr hm
  · by_cases hlive : Live n
    · exact hacc.inv (hstep hlive)
    · exact Acc.intro n fun m hm => absurd hm.1 hlive
  · exact roundsLeft_lt hc hacc fun hlive => ⟨hstep hlive, hlive.2⟩

open Classical in
/-- The clusters that do not show 0 yet. -/
noncomputable def unfreed (fs : Fat32Fs) (s : Fat32State) : Finset ℕ :=
  (Finset.range fat32Eoc).filter fun d => ∃ n, n ≠ 0 ∧ Seen fs s d n

/-- Freeing a chain comes to an end, whatever the chain, as long as no transfer fails: a cluster
that is met a second time shows 0. -/
lemma halts_freeChain_of_noFail (hb : InBounds fs) (c : ℕ) {s : Fat32State} (h : s.blk.NoFail) :
    Halts (freeChain fs c) s := by
  classical
  refine wp_iter (fun _ s' => s'.blk.NoFail)
    (fun c s' => if Live c then (unfreed fs s').card + 1 else 0) ?_ h (lt_loopFuel ?_)
  · intro c s₁ hs₁
    refine wp_ite_intro (fun hc => ?_) fun _ => (wp_pure _ _ _).mpr trivial
    simp only [wp_bind]
    refine wp_mono (wp_next' fs c s₁) fun n s₂ hpost => ?_
    obtain ⟨hn, hs₂⟩ := hpost
    have hnf₂ : s₂.blk.NoFail := fun i => by rw [hs₂.fails, hs₁]
    refine wp_mono (entered_setEntry hb c 0 s₂) fun ok s₃ hpost => ?_
    obtain ⟨hs₃, hown, hok⟩ := hpost
    refine (wp_pure _ _ _).mpr ⟨fun i => by rw [hs₃.fails, hnf₂], ?_⟩
    rw [if_pos (show Live c from hc)]
    split
    · rename_i hlive
      have hseen : Seen fs s₁ c n := hn.resolve_right (ne_of_lt hlive.2)
      have hzero : ∀ m, Seen fs s₃ c m → m = 0 := hown (hok hnf₂)
      have hlt : (unfreed fs s₃).card < (unfreed fs s₁).card := by
        refine Finset.card_lt_card ((Finset.ssubset_iff_of_subset fun d hd => ?_).mpr ⟨c, ?_, ?_⟩)
        · obtain ⟨hd, m, hm, hseen'⟩ := Finset.mem_filter.mp hd
          refine Finset.mem_filter.mpr ⟨hd, m, hm, ?_⟩
          exact hs₂.seen fs d m ((hs₃.seen d m hseen').resolve_right hm)
        · exact Finset.mem_filter.mpr ⟨Finset.mem_range.mpr hc.2, n, hlive.1, hseen⟩
        · intro hd
          obtain ⟨-, m, hm, hseen'⟩ := Finset.mem_filter.mp hd
          exact hm (hzero m hseen')
      omega
    · omega
  · have hle : (unfreed fs s).card ≤ fat32Eoc :=
      (Finset.card_filter_le _ _).trans (Finset.card_range _).le
    have heoc : fat32Eoc + 1 < 2 ^ 32 := by decide
    split <;> omega

/-! ## The first cluster of a file -/

/-- A cluster that has just been allocated shows the end marker. -/
lemma wp_allocClusterIn_seen (hb : InBounds fs) {hi : ℕ} (hhi : hi < 2 ^ 32 - 1) (lo : ℕ)
    (s : Fat32State) :
    wp (allocClusterIn fs lo hi)
      (fun r s' => ∀ c, r = some c → c ≠ 0 → ∀ n, Seen fs s' c n → n = fat32Eoc) s := by
  refine (total_allocClusterIn hb hhi lo s).wp_of_wlp (wlp_iter (fun _ _ => True) ?_ trivial)
  intro c s₁ _
  simp only [wlp_ite, wlp_bind, wlp_pure]
  split
  · intro n s₂ _
    split
    · refine wlp_mono (wlp_of_wp (entered_setEntry hb c fat32Eoc s₂)) fun ok s₃ hpost => ?_
      obtain ⟨_, hown, _⟩ := hpost
      cases ok with
      | false =>
        simp only [Bool.false_eq_true, if_false, Sum.elim_inr]
        rintro c ⟨⟩ h0
        exact absurd rfl h0
      | true =>
        simp only [if_true, setHint, wlp_modify, Sum.elim_inr]
        rintro c ⟨⟩ _ n hn
        exact hown rfl n hn
    · trivial
  · rintro c ⟨⟩

lemma wp_allocCluster_seen (hb : InBounds fs) (s : Fat32State) :
    wp (fat32AllocCluster fs) (fun c s' => c ≠ 0 → ∀ n, Seen fs s' c n → n = fat32Eoc) s := by
  have hlast := hb.last
  have hle := searchStart_le fs s
  simp only [fat32AllocCluster, wp_bind, wp_get]
  refine wp_mono (wp_allocClusterIn_seen hb hlast _ s) fun r s₁ hr => ?_
  cases r with
  | some c => exact (wp_pure _ _ _).mpr (hr c rfl)
  | none =>
    simp only [wp_bind]
    refine wp_mono (wp_allocClusterIn_seen hb (by omega) _ s₁) fun r s₂ hr => ?_
    cases r with
    | some c => exact (wp_pure _ _ _).mpr (hr c rfl)
    | none => exact (wp_pure _ _ _).mpr fun h => absurd rfl h

/-! ## The operations -/

section Ops

variable {s : Fat32State} {node : ℕ}

lemma halts_readdir (hb : InBounds fs) (hfs : (s.nodePool node).fi.fs = fs) {index : ℕ}
    (h : Acc (DirStep fs s fun _ buf c => readdirVisit index buf c) (s.nodePool node).inode) :
    Halts (fat32Readdir node index) s := by
  simp only [Halts, fat32Readdir, wp_bind, wp_get, hfs]
  refine (Halts.of_wp (halts_dirWalk hb none _ 0 h)).wp fun r s' => ?_
  cases r with
  | inl c => exact (wp_pure _ _ _).mpr trivial
  | inr r => exact (wp_pure _ _ _).mpr trivial

/-- A lookup by name changes nothing that later walks see. -/
lemma wp_finddir_seen (hb : InBounds fs) (hfs : (s.nodePool node).fi.fs = fs) {name : List UInt8}
    (h : Acc (DirStep fs s fun lba buf _ => finddirVisit name lba buf) (s.nodePool node).inode) :
    wp (fat32Finddir node name) (fun _ s' => Looks s s') s := by
  simp only [fat32Finddir, wp_bind, wp_get, hfs]
  refine wp_mono (halts_dirWalk hb none _ () h) fun r s' hs' => ?_
  rcases r with c | _ | e
  · exact (wp_pure _ _ _).mpr hs'
  · exact (wp_pure _ _ _).mpr hs'
  · simp only [allocNode, wp_bind, wp_get, wp_ite, wp_pure, wp_modify]
    split
    · exact hs'
    · exact ⟨hs'.disk, hs'.fails, hs'.seen⟩

lemma halts_insert (hb : InBounds fs) (raw : List UInt8) (cluster size : ℕ)
    (h : Acc (DirStep fs s fun lba buf _ => insertVisit lba buf) (s.nodePool node).inode) :
    Halts (fat32InsertDirent fs node raw cluster size) s := by
  simp only [Halts, fat32InsertDirent, wp_bind, wp_get]
  refine (Halts.of_wp (halts_dirWalk hb none _ () h)).wp fun r s' => ?_
  rcases r with last | _ | e
  · refine Total.bind (total_allocCluster hb) (fun c => .ite (.ret _) ?_) s'
    refine .bind (total_writeData _ _ _ _) fun ok => .ite ?_ (.ret _)
    refine .bind (total_setEntry hb _ _) fun ok => .ite ?_ (.ret _)
    exact .bind (total_writeData _ _ _ _) fun ok => .ite (.ret _) (.ret _)
  · exact (wp_pure _ _ _).mpr trivial
  · exact Total.bind (total_writeData _ _ _ _) (fun ok => .ite (.ret _) (.ret _)) s'

lemma halts_unlink (hb : InBounds fs) (hfs : (s.nodePool node).fi.fs = fs) {name : List UInt8}
    (h : Acc (DirStep fs s fun lba buf _ => finddirVisit name lba buf) (s.nodePool node).inode)
    (hfree : s.blk.NoFail ∨ ∀ c, Acc (FreeStep fs s) c) : Halts (fat32Unlink node name) s := by
  simp only [Halts, fat32Unlink, wp_bind, wp_get, hfs]
  refine wp_ite_intro (fun _ => (wp_pure _ _ _).mpr trivial) fun _ => ?_
  rw [wp_bind]
  refine wp_mono (wp_finddir_seen hb hfs h) fun r s₁ hs₁ => ?_
  cases r with
  | none => exact (wp_pure _ _ _).mpr trivial
  | some target =>
    simp only [wp_bind, wp_get]
    refine wp_ite_intro (fun _ => (wp_pure _ _ _).mpr trivial) fun _ => ?_
    rw [wp_bind]
    have hfreed : Halts (freeChain fs (s₁.nodePool target).inode) s₁ := by
      rcases hfree with hnf | hends
      · exact halts_freeChain_of_noFail hb _ fun i => by rw [hs₁.fails, hnf]
      · refine halts_freeChain_of_acc hb (Subrelation.accessible ?_ (hends _))
        exact fun hstep => ⟨hstep.1, hstep.2.1, hs₁.seen fs _ _ hstep.2.2⟩
    refine hfreed.wp fun _ s₂ => ?_
    exact Total.bind (total_updateSector fs _ _) (fun ok => .ite (.ret _) (.ret _)) s₂

lemma halts_write (hb : InBounds fs) (hfs : (s.nodePool node).fi.fs = fs)
    (hsize : (s.nodePool node).size ≤ 2 ^ 28 * clusterSize fs)
    (h : (s.nodePool node).inode ≠ 0 → Acc (FileStep fs s) (s.nodePool node).inode)
    (offset : ℕ) {size : ℕ} (hlt : size < 2 ^ 32) (input : Bytes) :
    Halts (fat32Write node offset size input) s := by
  simp only [Halts, fat32Write, wp_bind, wp_get, hfs]
  refine wp_ite_intro (fun _ => (wp_pure _ _ _).mpr trivial) fun _ => ?_
  refine wp_ite_intro (fun _ => (wp_pure _ _ _).mpr trivial) fun _ => ?_
  refine wp_ite_intro (fun _ => (wp_pure _ _ _).mpr trivial) fun hoffset => ?_
  have hfirst : wp (ensureFirstCluster fs node)
      (fun c s' => c ≠ 0 → Acc (FileStep fs s') c) s := by
    simp only [ensureFirstCluster, wp_bind, wp_get]
    refine wp_ite_intro (fun _ => ?_) fun hne => (wp_pure _ _ _).mpr fun _ => h hne
    rw [wp_bind]
    refine wp_mono (wp_allocCluster_seen hb s) fun c s₁ hc => ?_
    refine wp_ite_intro (fun _ => (wp_pure _ _ _).mpr fun h0 => absurd rfl h0) fun hne => ?_
    simp only [modifyNode, wp_bind, wp_modify, wp_pure]
    -- the new cluster shows the end marker, so nothing comes after it
    exact fun _ => Acc.intro c fun n hn => absurd (hc hne n hn.2) (ne_of_lt hn.1)
  rw [wp_bind]
  refine wp_mono hfirst fun c s₁ hc => ?_
  refine wp_ite_intro (fun _ => (wp_pure _ _ _).mpr trivial) fun hne => ?_
  rw [wp_bind]
  refine (halts_chainTail fs (hc hne)).wp fun p s₂ => ?_
  have hneeded : max 1 (u32 ((offset + size + clusterSize fs - 1) / clusterSize fs)) < 2 ^ 32 :=
    max_lt (by decide) (Nat.mod_lt _ (by decide))
  have hrounds : offset / clusterSize fs + 1 < 2 ^ 32 := by
    have hdiv : offset / clusterSize fs ≤ 2 ^ 28 :=
      Nat.div_le_of_le_mul (by rw [Nat.mul_comm]; exact (not_lt.mp hoffset).trans hsize)
    omega
  refine Total.bind (total_growChain hb hneeded _ _) (fun allocated => .ite (.ret _) ?_) s₂
  exact total_writeWindow hb hrounds (by omega) node c input

lemma halts_defragOne (hb : InBounds fs)
    (h : (s.nodePool node).inode ≠ 0 → Acc (FileStep fs s) (s.nodePool node).inode) :
    Halts (fat32DefragOne fs node) s := by
  simp only [Halts, fat32DefragOne, wp_bind, wp_get]
  refine wp_ite_intro (fun _ => (wp_pure _ _ _).mpr trivial) fun _ => ?_
  refine wp_ite_intro (fun _ => (wp_pure _ _ _).mpr trivial) fun hne => ?_
  rw [wp_bind]
  refine wp_mono (measureChain_short fs (h hne)) ?_
  rintro ⟨len, ok⟩ s₁ hlen
  have hlen' : len < 2 ^ 32 := hlen
  refine wp_ite_intro (fun _ => (wp_pure _ _ _).mpr trivial) fun _ => ?_
  rw [wp_bind]
  refine wp_mono ((total_allocRun hb hlen' s₁).wp_of_wlp (allocRun_length fs len s₁)) ?_
  rintro ⟨start, got⟩ s₂ ⟨-, hgot⟩
  have hgot' : got < 2 ^ 32 := by
    dsimp only at hgot
    omega
  refine wp_ite_intro (fun _ => ?_) fun _ => ?_
  · exact wp_ite_intro (fun _ => Total.bind (total_freeRun hb start hgot') (fun _ => .ret _) s₂)
      fun _ => (wp_pure _ _ _).mpr trivial
  · refine Total.bind (total_copyChain _ _ hlen') (fun ok => .ite ?_ ?_) s₂
    · refine .bind (.change _) fun _ => .bind (total_flush node) fun ok => .ite ?_ ?_
      · exact .bind (total_freeOldChain hb _ hlen') fun _ => .ret _
      · exact .bind (.change _) fun _ => .bind (total_freeRun hb start hlen') fun _ => .ret _
    · exact .bind (total_freeRun hb start hlen') fun _ => .ret _

end Ops

/-! ## All walks -/

/-- A directory and a file of a volume; no file is longer than a chain without repetitions. -/
structure Nodes (fs : Fat32Fs) (dir file : ℕ) (s : Fat32State) : Prop where
  bounds : InBounds fs
  dirFs : (s.nodePool dir).fi.fs = fs
  fileFs : (s.nodePool file).fi.fs = fs
  size : (s.nodePool file).size ≤ 2 ^ 28 * clusterSize fs

/-- All walks over the two nodes return. -/
structure WalksHalt (fs : Fat32Fs) (dir file : ℕ) (s : Fat32State) : Prop where
  readdir : ∀ index, Halts (fat32Readdir dir index) s
  finddir : ∀ name, Halts (fat32Finddir dir name) s
  insert : ∀ raw cluster size, Halts (fat32InsertDirent fs dir raw cluster size) s
  unlink : ∀ name, Halts (fat32Unlink dir name) s
  write : ∀ offset size input, size < 2 ^ 32 → Halts (fat32Write file offset size input) s
  defragOne : Halts (fat32DefragOne fs file) s

/-- A walk over a directory returns if the clusters that it may follow come to an end or to a sector
that ends the walk, a walk over a file if its clusters come to an end.  Freeing a file returns in
any case as long as no transfer fails. -/
theorem walks_halt {dir file : ℕ} {s : Fat32State} (h : Nodes fs dir file s) :
    (∀ index, Acc (DirStep fs s fun _ buf n => readdirVisit index buf n) (s.nodePool dir).inode →
      Halts (fat32Readdir dir index) s) ∧
    (∀ name, Acc (DirStep fs s fun lba buf _ => finddirVisit name lba buf) (s.nodePool dir).inode →
      Halts (fat32Finddir dir name) s ∧
        ((s.blk.NoFail ∨ ∀ c, Acc (FreeStep fs s) c) → Halts (fat32Unlink dir name) s)) ∧
    (Acc (DirStep fs s fun lba buf _ => insertVisit lba buf) (s.nodePool dir).inode →
      ∀ raw cluster size, Halts (fat32InsertDirent fs dir raw cluster size) s) ∧
    (((s.nodePool file).inode ≠ 0 → Acc (FileStep fs s) (s.nodePool file).inode) →
      (∀ offset size input, size < 2 ^ 32 → Halts (fat32Write file offset size input) s) ∧
        Halts (fat32DefragOne fs file) s) := by
  refine ⟨fun index hacc => halts_readdir h.bounds h.dirFs hacc, fun name hacc => ⟨?_, ?_⟩, ?_, ?_⟩
  · exact .of_wp (wp_finddir_seen h.bounds h.dirFs hacc)
  · exact halts_unlink h.bounds h.dirFs hacc
  · exact fun hacc raw cluster size => halts_insert h.bounds raw cluster size hacc
  · intro hacc
    refine ⟨fun offset size input hlt => ?_, halts_defragOne h.bounds hacc⟩
    exact halts_write h.bounds h.fileFs h.size hacc offset hlt input

/-- A volume with one sector a cluster, whose table is sector 0. -/
def tinyFs : Fat32Fs where
  id := 0
  dev := ⟨0, 0⟩
  partLba := 0
  sectorsPerCluster := 1
  reservedSectors := 0
  numFats := 1
  fatSize := 1
  rootCluster := 2
  fatStartLba := 0
  dataStartLba := 1
  totalSectors := 5
  totalClusters := 4

/-- Node 0 is a file of one cluster, number 3; the entry of this cluster is `next`. -/
def tinyState (next : ℕ) : Fat32State where
  blk := ⟨fun _ => Bytes.put32 Bytes.zeros 12 next, fun _ => false, 0, []⟩
  fatBuf := Bytes.zeros
  cachedFatDev := noDrive
  cachedFatLba := 0
  fsPoolUsed := 1
  nextFreeHint := fun _ => 2
  nodePool := fun _ => ⟨[65], .file, 512, 3, none, ⟨tinyFs, true, 1, 0⟩⟩
  nodePoolUsed := 1
  trace := []

lemma tinyState_nodes (next : ℕ) : Nodes tinyFs 0 0 (tinyState next) :=
  ⟨⟨by decide, by decide, by decide, by decide, by decide⟩, rfl, rfl,
    show 512 ≤ 2 ^ 28 * clusterSize tinyFs by decide⟩

/-- Node 0 is a directory of the clusters 2 and 3, node 1 a file of the clusters 4 and 5. -/
def twoChains : Fat32State :=
  { tinyState 0x0FFFFFFF with
    blk := ⟨fun _ => [(8, 3), (12, 0x0FFFFFFF), (16, 5), (20, 0x0FFFFFFF)].foldl
      (fun b e => Bytes.put32 b e.1 e.2) Bytes.zeros, fun _ => false, 0, []⟩
    nodePool := fun i =>
      if i = 0 then ⟨[68], .directory, 0, 2, none, ⟨tinyFs, true, 1, 0⟩⟩
      else ⟨[65], .file, 1024, 4, some 0, ⟨tinyFs, true, 1, 32⟩⟩
    nodePoolUsed := 2 }

lemma twoChains_nodes : Nodes tinyFs 0 1 twoChains :=
  ⟨⟨by decide, by decide, by decide, by decide, by decide⟩, rfl, rfl,
    show 1024 ≤ 2 ^ 28 * clusterSize tinyFs by decide⟩

/-- Both chains come to an end. -/
lemma twoChains_acc {c : ℕ} (hc : c ∈ [2, 4]) : Acc (FileStep tinyFs twoChains) c := by
  have hseen : ∀ c ∈ [2, 3, 4, 5], ∀ n, Seen tinyFs twoChains c n →
      n = diskEntry tinyFs twoChains c := by
    rintro c hc n (h | ⟨hhit, -⟩)
    · exact h
    · have hmiss : ∀ c ∈ [2, 3, 4, 5],
        cacheHit tinyFs (primarySector tinyFs c) twoChains = false := by
        decide
      rw [hmiss c hc] at hhit
      cases hhit
  -- the second cluster of a chain is the last one
  have hlast : ∀ c ∈ [3, 5], Acc (FileStep tinyFs twoChains) c :=
      fun c hc => Acc.intro c fun n hn => by
    have hend : ∀ c ∈ [3, 5], ¬diskEntry tinyFs twoChains c < fat32Eoc := by decide
    rw [hseen c (by simp at hc ⊢; omega) n hn.2] at hn
    exact absurd hn.1 (hend c hc)
  refine Acc.intro c fun n hn => hlast n ?_
  have hnext : ∀ c ∈ [2, 4], diskEntry tinyFs twoChains c ∈ [3, 5] := by decide
  rw [hseen c (by simp at hc ⊢; omega) n hn.2]
  exact hnext c hc

/-- Walks over chains of two clusters. -/
theorem walks_halt_twoChains : (∀ index, Halts (fat32Readdir 0 index) twoChains) ∧
    (∀ name, Halts (fat32Finddir 0 name) twoChains ∧ Halts (fat32Unlink 0 name) twoChains) ∧
    (∀ raw cluster size, Halts (fat32InsertDirent tinyFs 0 raw cluster size) twoChains) ∧
    Halts (fat32Write 1 0 1024 Bytes.zeros) twoChains ∧
    Halts (fat32DefragOne tinyFs 1) twoChains := by
  have hdir : ∀ {α γ : Type} (visit : ℕ → Bytes → γ → γ ⊕ α),
      Acc (DirStep tinyFs twoChains visit) 2 :=
    fun _ => Subrelation.accessible (fun h => ⟨h.2.1, h.2.2.1⟩) (twoChains_acc (by decide))
  obtain ⟨hread, hname, hinsert, hfile⟩ := walks_halt twoChains_nodes
  obtain ⟨hwrite, hdefrag⟩ := hfile fun _ => twoChains_acc (by decide)
  exact ⟨fun index => hread index (hdir _), fun name => ⟨(hname name (hdir _)).1,
    (hname name (hdir _)).2 (.inl fun _ => rfl)⟩, hinsert (hdir _),
      hwrite 0 1024 Bytes.zeros (by decide),
    hdefrag⟩

/-- A file whose only cluster leads back to itself: `fat32_defrag_one` never gets to the end of its
chain. -/
theorem not_walks_halt : ¬∀ (fs : Fat32Fs) (dir file : ℕ) (s : Fat32State), Nodes fs dir file s →
    WalksHalt fs dir file s := by
  intro h
  have hdefrag := (h tinyFs 0 0 (tinyState 3) (tinyState_nodes 3)).defragOne
  rw [Halts, fat32DefragOne, wp_bind, wp_get, wp_ite, if_neg (by decide), wp_ite,
    if_neg (by decide), wp_bind] at hdefrag
  have hmeasure : Halts (measureChain tinyFs 3) (tinyState 3) := .of_wp hdefrag
  refine not_halts_iter (fun p s' => p.1 = 3 ∧ Looks (tinyState 3) s') ?_
    ⟨rfl, refl_of Looks _⟩ hmeasure
  rintro ⟨_, len, ok⟩ s₁ ⟨rfl, hs₁⟩
  rw [wlp_bind]
  refine wlp_mono (wlp_next tinyFs 3 s₁) fun n s₂ hpost => ?_
  obtain ⟨hn, hs₂⟩ := hpost
  have hnf : s₁.blk.NoFail := fun i => by
    rw [hs₁.fails]
    rfl
  have hthree : n = 3 := by
    rcases hs₁.seen tinyFs 3 n (hn.resolve_right fun hfail => hfail.2 hnf) with hd | ⟨hhit, -⟩
    · exact hd
    · exact absurd hhit (by decide)
  subst hthree
  simp only [wlp_ite, wlp_pure]
  rw [if_pos (by decide)]
  exact ⟨_, rfl, rfl, trans_of Looks hs₁ hs₂⟩

end Fat32

end CoolFrost

import CoolFrost.Fs.Fat32.Steps

/-!
# FAT32: the cached sector of the file allocation table

`fat_buf` is a copy of the sector that the cache key names.  A lookup fills it, and
`fat32_set_fat_entry` patches it after all copies of the table have been written; when a transfer
for a later copy fails, the function returns before the patch, although the first copy is written.
The copy is therefore up to date in every state that is reached without such a failure, as long as
the first copy of a table is written by nothing else.
-/

namespace CoolFrost

open Program

namespace Fat32

/-- The value of the key before the first lookup, which is no drive. -/
def noDrive : Drive := ⟨0xFF, 0xFF⟩

/-- The sector of the first copy of the table that holds the entry of a cluster. -/
def primarySector (fs : Fat32Fs) (cluster : ℕ) : ℕ := fs.fatStartLba + u32 (cluster * 4) / 512

/-- The sector of a copy of the table that holds the entry of a cluster. -/
def copySector (fs : Fat32Fs) (cluster copy : ℕ) : ℕ :=
  fs.fatStartLba + copy * fs.fatSize + u32 (cluster * 4) / 512

/-- If the key names a sector, `fat_buf` is the contents of that sector. -/
def Coherent (s : Fat32State) : Prop :=
  s.cachedFatDev ≠ noDrive →
    ∀ i < 512, s.fatBuf i = s.blk.disk s.cachedFatDev (s.cachedFatLba * 512 + i)

/-- A call of `fat32_set_fat_entry` with `n` transfers before it fails on the first copy or on none,
and there is a first copy. -/
def Complete (fails : ℕ → Bool) : FatEvent → Prop
  | .setEntry fs _ n => 1 ≤ fs.numFats ∧
    (fails n = true ∨ fails (n + 1) = true ∨ ∀ j < 2 * fs.numFats, fails (n + j) = false)
  | _ => True

/-- A call does not write the sector that a lookup reads, except as the first copy of a table. -/
def Apart : FatEvent → FatEvent → Prop
  | .setEntry fs c _, .lookup fs' c' => fs.dev = fs'.dev →
    ∀ copy < fs.numFats, 1 ≤ copy → copySector fs c copy ≠ primarySector fs' c'
  | .write dev lba count, .lookup fs' c' => dev = fs'.dev →
    primarySector fs' c' < lba ∨ lba + count % 256 ≤ primarySector fs' c'
  | _, _ => True

/-- The condition on the calls of a run. -/
structure Quiet (fails : ℕ → Bool) (trace : List FatEvent) : Prop where
  complete : ∀ e ∈ trace, Complete fails e
  apart : ∀ e ∈ trace, ∀ e' ∈ trace, Apart e e'

instance (fails : ℕ → Bool) (e : FatEvent) : Decidable (Complete fails e) := by
  cases e <;> unfold Complete <;> infer_instance

instance (e e' : FatEvent) : Decidable (Apart e e') := by
  cases e <;> cases e' <;> unfold Apart <;> infer_instance

instance (fails : ℕ → Bool) (trace : List FatEvent) : Decidable (Quiet fails trace) :=
  decidable_of_iff ((∀ e ∈ trace, Complete fails e) ∧ ∀ e ∈ trace, ∀ e' ∈ trace, Apart e e')
    ⟨fun h => ⟨h.1, h.2⟩, fun h => ⟨h.complete, h.apart⟩⟩

lemma Quiet.mono {fails : ℕ → Bool} {l l' : List FatEvent} (h : Quiet fails l)
    (hl : ∀ e ∈ l', e ∈ l) : Quiet fails l' :=
  ⟨fun e he => h.complete e (hl e he), fun e he e' he' => h.apart e (hl e he) e' (hl e' he')⟩

/-- The cached sector is up to date, and it has been looked up. -/
structure Cached (s : Fat32State) : Prop where
  coherent : Coherent s
  known : s.cachedFatDev ≠ noDrive → ∃ fs c, .lookup fs c ∈ s.trace ∧ fs.dev = s.cachedFatDev ∧
    primarySector fs c = s.cachedFatLba

/-- What every step keeps: the record grows, and if it is quiet the cached sector stays up to
date. -/
structure KeepsCache (s s' : Fat32State) : Prop where
  fails : s'.blk.fails = s.blk.fails
  trace : ∀ e ∈ s.trace, e ∈ s'.trace
  cached : Quiet s'.blk.fails s'.trace → Cached s → Cached s'

instance : IsPreorder Fat32State KeepsCache where
  refl s := ⟨rfl, fun _ h => h, fun _ h => h⟩
  trans s s' s'' h h' := by
    refine ⟨h'.fails.trans h.fails, fun e he => h'.trace e (h.trace e he), fun hq hc => ?_⟩
    have hq' : Quiet s'.blk.fails s'.trace := h'.fails ▸ hq.mono h'.trace
    exact h'.cached hq (h.cached hq' hc)

/-- A step that touches neither the drives' contents nor the cache. -/
lemma keepsCache_of_same {s s' : Fat32State} (hd : s'.blk.disk = s.blk.disk)
    (hf : s'.blk.fails = s.blk.fails) (hb : s'.fatBuf = s.fatBuf)
    (hk : s'.cachedFatDev = s.cachedFatDev) (hl : s'.cachedFatLba = s.cachedFatLba)
    (ht : ∀ e ∈ s.trace, e ∈ s'.trace) : KeepsCache s s' := by
  refine ⟨hf, ht, fun _ hc => ⟨fun hn i hi => ?_, fun hn => ?_⟩⟩
  · rw [hk] at hn
    rw [hb, hd, hk, hl]
    exact hc.coherent hn i hi
  · rw [hk] at hn
    obtain ⟨fs, c, hmem, hdev, hlba⟩ := hc.known hn
    exact ⟨fs, c, ht _ hmem, hk ▸ hdev, hl ▸ hlba⟩

/-! ## Transfers -/

/-- A read returns the sectors or fails, and changes no drive. -/
lemma wlp_read (dr : Drive) (lba n : ℕ) (s : Fat32State) :
    wlp (io (blkRead dr lba n)) (fun r s' =>
      s' = { s with blk := { s.blk with calls := s.blk.calls + 1 } } ∧
      if s.blk.fails s.blk.calls then r = none
      else r = some (Bytes.clip (n % 256 * 512) (Bytes.shift (s.blk.disk dr) (lba * 512)))) s := by
  simp only [io, wlp_zoom, blkRead, wlp_bind, wlp_get, wlp_modify, wlp_ite, wlp_pure]
  split <;> simp_all

/-- A write replaces the sectors or fails, in which case it changes no drive. -/
lemma wlp_write (dr : Drive) (lba n : ℕ) (buf : Bytes) (s : Fat32State) :
    wlp (io (blkWrite dr lba n buf)) (fun r s' => r = !s.blk.fails s.blk.calls ∧
      ∃ log, s' = { s with blk :=
        { s.blk with calls := s.blk.calls + 1, log := log
                     disk := if s.blk.fails s.blk.calls then s.blk.disk
                       else writeSectors s.blk.disk dr lba n buf } }) s := by
  simp only [io, wlp_zoom, blkWrite, wlp_bind, wlp_get, wlp_modify, wlp_pure]
  refine ⟨trivial, ⟨dr, lba, n, buf, !s.blk.fails s.blk.calls⟩ :: s.blk.log, ?_⟩
  cases s.blk.fails s.blk.calls <;> rfl

/-- A sector of a drive is not changed by writing other sectors. -/
lemma writeSectors_other {disk : Drive → Bytes} {dr dr' : Drive} {lba n lba' : ℕ} {buf : Bytes}
    (h : dr = dr' → lba' < lba ∨ lba + n % 256 ≤ lba') {i : ℕ} (hi : i < 512) :
    writeSectors disk dr lba n buf dr' (lba' * 512 + i) = disk dr' (lba' * 512 + i) := by
  by_cases hdr : dr' = dr
  · subst hdr
    rw [writeSectors, Function.update_self]
    refine Bytes.blit_of_not_mem ?_
    rcases h rfl with h | h
    · exact .inl (by omega)
    · exact .inr (by omega)
  · rw [writeSectors, Function.update_of_ne hdr]

/-- Writing one sector makes it the bytes written. -/
lemma writeSectors_self {disk : Drive → Bytes} {dr : Drive} {lba : ℕ} {buf : Bytes} {i : ℕ}
    (hi : i < 512) : writeSectors disk dr lba 1 buf dr (lba * 512 + i) = buf i := by
  rw [writeSectors, Function.update_self, Bytes.blit_of_mem (by omega)]
  congr 1
  omega

/-- Patching an entry inside a sector depends on the bytes of the sector only. -/
lemma patchEntry_congr {b b' : Bytes} {off v : ℕ} (hoff : off + 4 ≤ 512)
    (h : ∀ i < 512, b i = b' i) {i : ℕ} (hi : i < 512) :
    patchEntry b off v i = patchEntry b' off v i := by
  have hle : Bytes.le32 b off = Bytes.le32 b' off := Bytes.le32_congr fun j hj => h _ (by omega)
  unfold patchEntry Bytes.put32
  rw [hle]
  by_cases hmem : off ≤ i ∧ i < off + 4
  · rw [Bytes.blit_of_mem hmem, Bytes.blit_of_mem hmem]
  · rw [Bytes.blit_of_not_mem (by omega), Bytes.blit_of_not_mem (by omega), h i hi]

/-- An entry lies inside its sector. -/
lemma entryOff_le (c : ℕ) : u32 (c * 4) % 512 + 4 ≤ 512 := by
  unfold u32
  omega

/-! ## The steps -/

lemma keepsCache_read (dr : Drive) (lba n : ℕ) : Keeps KeepsCache (io (blkRead dr lba n)) := by
  intro s
  refine wlp_mono (wlp_read dr lba n s) fun r s' ⟨hs, _⟩ => ?_
  subst hs
  exact keepsCache_of_same rfl rfl rfl rfl rfl fun _ h => h

lemma keepsCache_lookup (fs : Fat32Fs) (c : ℕ) : Keeps KeepsCache (fat32NextCluster fs c) := by
  intro s
  simp only [fat32NextCluster, note, loadFatSector, wlp_bind, wlp_modify, wlp_get, wlp_ite]
  have hnoted : ∀ e ∈ s.trace, e ∈ FatEvent.lookup fs c :: s.trace :=
    fun _ h => List.mem_cons_of_mem _ h
  split
  · simp only [wlp_pure, if_pos]
    exact keepsCache_of_same rfl rfl rfl rfl rfl hnoted
  · refine wlp_mono (wlp_read _ _ _ _) fun r s' hpost => ?_
    obtain ⟨hs, hr⟩ := hpost
    subst hs
    cases r with
    | none =>
      simp only [wlp_pure, Bool.false_eq_true, if_false]
      exact keepsCache_of_same rfl rfl rfl rfl rfl hnoted
    | some b =>
      simp only [wlp_bind, wlp_modify, wlp_pure, if_true]
      split at hr
      · cases hr
      · cases hr
        refine ⟨rfl, hnoted, fun _ _ => ⟨fun _ i hi => ?_, fun _ => ?_⟩⟩
        · exact Bytes.clip_of_lt (by simpa using hi)
        · exact ⟨fs, c, List.mem_cons_self, rfl, rfl⟩

lemma keepsCache_write (dev : Drive) (lba n : ℕ) (buf : Bytes) :
    Keeps KeepsCache (writeData dev lba n buf) := by
  intro s
  simp only [writeData, note, wlp_bind, wlp_modify]
  refine wlp_mono (wlp_write _ _ _ _ _) fun r s' hpost => ?_
  obtain ⟨_, log, hs⟩ := hpost
  subst hs
  refine ⟨rfl, fun _ h => List.mem_cons_of_mem _ h, fun hq hc => ⟨fun hn i hi => ?_, fun hn => ?_⟩⟩
  · obtain ⟨fs, c, hmem, hdev, hlba⟩ := hc.known hn
    have hother := hq.apart _ List.mem_cons_self _ (List.mem_cons_of_mem _ hmem)
    simp only [Apart, hdev, hlba] at hother
    dsimp only
    split
    · exact hc.coherent hn i hi
    · rw [writeSectors_other hother hi]
      exact hc.coherent hn i hi
  · obtain ⟨fs, c, hmem, hdev, hlba⟩ := hc.known hn
    exact ⟨fs, c, List.mem_cons_of_mem _ hmem, hdev, hlba⟩

/-- The state of the loop of `fat32_set_fat_entry` before copy `copy`, when the call started in `s`:
no transfer has failed, and the sector named by the key is patched from the first copy on. -/
structure CopyLoop (fs : Fat32Fs) (c v : ℕ) (s : Fat32State) (copy : ℕ) (s' : Fat32State) :
    Prop where
  same : s'.fatBuf = s.fatBuf ∧ s'.cachedFatDev = s.cachedFatDev ∧
    s'.cachedFatLba = s.cachedFatLba ∧ s'.trace = s.trace ∧ s'.blk.fails = s.blk.fails
  calls : s'.blk.calls = s.blk.calls + 2 * copy
  ok : ∀ j < 2 * copy, s.blk.fails (s.blk.calls + j) = false
  first : copy = 0 → s'.blk.disk = s.blk.disk
  sector : Quiet s.blk.fails s.trace → .setEntry fs c s.blk.calls ∈ s.trace → Cached s →
    s.cachedFatDev ≠ noDrive → ∀ i < 512,
      s'.blk.disk s.cachedFatDev (s.cachedFatLba * 512 + i) =
        if 1 ≤ copy ∧ cacheHit fs (primarySector fs c) s then
          patchEntry s.fatBuf (u32 (c * 4) % 512) v i
        else s.fatBuf i

/-- A copy of the table is written. -/
lemma CopyLoop.next {fs : Fat32Fs} {c v copy : ℕ} {s s₁ : Fat32State}
    (h : CopyLoop fs c v s copy s₁) (hcopy : copy < fs.numFats)
    (hr : s.blk.fails (s₁.blk.calls) = false) (hw : s.blk.fails (s₁.blk.calls + 1) = false)
    (log : List BlkWrite) (buf : Bytes)
    (hbuf : ∀ i < 512, buf i = s₁.blk.disk fs.dev (copySector fs c copy * 512 + i)) :
    CopyLoop fs c v s (copy + 1) { s₁ with blk :=
      { s₁.blk with
        calls := s₁.blk.calls + 1 + 1, log := log
        disk := writeSectors s₁.blk.disk fs.dev (copySector fs c copy) 1
          (patchEntry buf (u32 (c * 4) % 512) v) } } where
  same := h.same
  calls := by
    have := h.calls
    simp only
    omega
  ok j hj := by
    have hcalls := h.calls
    rcases lt_or_ge j (2 * copy) with hlt | hge
    · exact h.ok j hlt
    · obtain rfl | rfl : j = 2 * copy ∨ j = 2 * copy + 1 := by omega
      · rw [← hcalls]
        exact hr
      · rw [← add_assoc, ← hcalls]
        exact hw
  first h0 := absurd h0 (Nat.succ_ne_zero _)
  sector hq hmem hc hn i hi := by
    have hold := h.sector hq hmem hc hn
    obtain ⟨fs', c', hmem', hdev, hlba⟩ := hc.known hn
    dsimp only
    by_cases hsec : fs.dev = s.cachedFatDev ∧ copySector fs c copy = s.cachedFatLba
    · -- the sector named by the key is written, which only the first copy can do
      obtain ⟨hdev', hlba'⟩ := hsec
      have hfirst : copy = 0 := by
        by_contra hne
        exact hq.apart _ hmem _ hmem' (hdev'.trans hdev.symm) copy hcopy (by omega)
          (hlba'.trans hlba.symm)
      subst hfirst
      have hprim : primarySector fs c = s.cachedFatLba := by
        rw [← hlba', copySector, primarySector, Nat.zero_mul, Nat.add_zero]
      have hhit : cacheHit fs (primarySector fs c) s = true := by
        simp [cacheHit, hprim, hdev']
      rw [if_pos ⟨by omega, hhit⟩]
      rw [← hdev', ← hlba', writeSectors_self hi]
      refine patchEntry_congr (entryOff_le c) (fun j hj => ?_) hi
      rw [hbuf j hj, hdev', hlba', hold j hj, if_neg (by omega)]
    · rw [writeSectors_other (fun hd => ?_) hi, hold i hi]
      · by_cases hcopy0 : copy = 0
        · subst hcopy0
          have hmiss : ¬ cacheHit fs (primarySector fs c) s = true := by
            intro hhit
            simp only [cacheHit, decide_eq_true_eq] at hhit
            refine hsec ⟨hhit.2.symm, ?_⟩
            rw [hhit.1, copySector, primarySector, Nat.zero_mul, Nat.add_zero]
          rw [if_neg (by omega), if_neg fun h => hmiss h.2]
        · have h1 : 1 ≤ copy := by omega
          simp only [h1, true_and, Nat.le_add_left]
      · have hne : copySector fs c copy ≠ s.cachedFatLba := fun h => hsec ⟨hd, h⟩
        rw [Nat.mod_eq_of_lt (by decide)]
        omega

/-- How the loop over the copies ends: with all copies written, or with a failed transfer. -/
lemma setFatCopies_spec (fs : Fat32Fs) (c v : ℕ) (s : Fat32State) :
    wlp (setFatCopies fs c v) (fun ok s' =>
      if ok then CopyLoop fs c v s fs.numFats s'
      else ∃ copy < fs.numFats, (∃ s₁, CopyLoop fs c v s copy s₁ ∧
        s'.fatBuf = s₁.fatBuf ∧ s'.cachedFatDev = s₁.cachedFatDev ∧
        s'.cachedFatLba = s₁.cachedFatLba ∧ s'.trace = s₁.trace ∧
        s'.blk.fails = s₁.blk.fails ∧ s'.blk.disk = s₁.blk.disk) ∧
        (s.blk.fails (s.blk.calls + 2 * copy) = true ∨
          s.blk.fails (s.blk.calls + (2 * copy + 1)) = true)) s := by
  refine wlp_iter (fun copy s' => copy ≤ fs.numFats ∧ CopyLoop fs c v s copy s') ?_
    ⟨Nat.zero_le _, ⟨⟨rfl, rfl, rfl, rfl, rfl⟩, rfl, fun j hj => absurd hj (by omega), fun _ => rfl,
      fun hq _ hc hn i hi => by rw [if_neg (by omega)]; exact (hc.coherent hn i hi).symm⟩⟩
  rintro copy s₁ ⟨hle, h⟩
  simp only [wlp_ite, wlp_bind, wlp_pure]
  have hcalls := h.calls
  split
  · rename_i hcopy
    refine wlp_mono (wlp_read _ _ _ _) fun r s₂ hpost => ?_
    obtain ⟨hs, hr⟩ := hpost
    subst hs
    rw [h.same.2.2.2.2] at hr
    cases r with
    | none =>
      split at hr
      · rename_i hfail
        rw [hcalls] at hfail
        refine (wlp_pure _ _ _).mpr ⟨copy, hcopy, ⟨s₁, h, rfl, rfl, rfl, rfl, rfl, rfl⟩, .inl hfail⟩
      · cases hr
    | some buf =>
      split at hr
      · cases hr
      · rename_i hread
        cases hr
        simp only [wlp_bind, wlp_ite, wlp_pure]
        refine wlp_mono (wlp_write _ _ _ _ _) fun ok s₃ hpost => ?_
        obtain ⟨hok, log, hs⟩ := hpost
        subst hs
        rw [h.same.2.2.2.2] at hok
        cases hwrite : s.blk.fails (s₁.blk.calls + 1) with
        | true =>
          simp only [hwrite, Bool.not_true] at hok
          subst hok
          simp only [Bool.false_eq_true, if_false]
          refine ⟨copy, hcopy, ⟨s₁, h, rfl, rfl, rfl, rfl, rfl, ?_⟩, .inr ?_⟩
          · simp only [h.same.2.2.2.2, hwrite, if_true]
          · rw [hcalls] at hwrite
            rw [← add_assoc]
            exact hwrite
        | false =>
          simp only [hwrite, Bool.not_false] at hok
          subst hok
          simp only [if_true, Sum.elim_inl]
          refine ⟨hcopy, ?_⟩
          have hnext := h.next hcopy (by simpa using hread) hwrite log
            (Bytes.clip (1 % 256 * 512)
              (Bytes.shift (s₁.blk.disk fs.dev) (copySector fs c copy * 512)))
            (fun i hi => Bytes.clip_of_lt (by simpa using hi))
          simpa only [h.same.2.2.2.2, hwrite, Bool.false_eq_true, if_false, copySector] using hnext
  · rename_i hcopy
    obtain rfl : copy = fs.numFats := by omega
    simpa using h

lemma keepsCache_setEntry (fs : Fat32Fs) (c v : ℕ) :
    Keeps KeepsCache (fat32SetFatEntry fs c v) := by
  intro s
  simp only [fat32SetFatEntry, note, wlp_bind, wlp_get, wlp_modify]
  set s₀ : Fat32State := { s with trace := .setEntry fs c s.blk.calls :: s.trace } with hs₀
  have hmem : FatEvent.setEntry fs c s₀.blk.calls ∈ s₀.trace := List.mem_cons_self
  have hcached : Cached s → Cached s₀ := by
    intro hc
    refine ⟨hc.coherent, fun hn => ?_⟩
    obtain ⟨fs', c', h, hrest⟩ := hc.known hn
    exact ⟨fs', c', List.mem_cons_of_mem _ h, hrest⟩
  have hsub : ∀ e ∈ s.trace, e ∈ s₀.trace := fun _ h => List.mem_cons_of_mem _ h
  refine wlp_mono (setFatCopies_spec fs c v s₀) fun ok s' h => ?_
  cases ok with
  | false =>
    obtain ⟨copy, hcopy, ⟨s₁, hloop, hb, hd, hl, ht, hf, hdisk⟩, hfail⟩ := h
    simp only [Bool.false_eq_true, if_false, wlp_pure]
    have hsame := hloop.same
    refine ⟨hf.trans hsame.2.2.2.2, fun e he => ?_, fun hq hc => ?_⟩
    · rw [ht, hsame.2.2.2.1]
      exact hsub e he
    · rw [hf, ht, hsame.2.2.2.2, hsame.2.2.2.1] at hq
      -- a transfer has failed, so it was for the first copy, and no copy is written
      obtain ⟨-, hq₁⟩ := hq.complete _ hmem
      have hzero : copy = 0 := by
        by_contra hne
        have h0 := hloop.ok 0 (by omega)
        have h1 := hloop.ok 1 (by omega)
        rw [Nat.add_zero] at h0
        rcases hq₁ with h | h | h
        · rw [h0] at h
          cases h
        · rw [h1] at h
          cases h
        · rcases hfail with hfail | hfail
          · rw [h (2 * copy) (by omega)] at hfail
            cases hfail
          · rw [h (2 * copy + 1) (by omega)] at hfail
            cases hfail
      have hfin : KeepsCache s₀ s' := keepsCache_of_same (hdisk.trans (hloop.first hzero))
        (hf.trans hsame.2.2.2.2) (hb.trans hsame.1) (hd.trans hsame.2.1) (hl.trans hsame.2.2.1)
        (fun e he => by rw [ht, hsame.2.2.2.1]; exact he)
      refine hfin.cached ?_ (hcached hc)
      rw [hf, ht, hsame.2.2.2.2, hsame.2.2.2.1]
      exact hq
  | true =>
    simp only [if_true] at h
    simp only [if_true, wlp_bind, wlp_modify, wlp_pure]
    obtain ⟨hb, hd, hl, ht, hf⟩ := h.same
    have hhit : cacheHit fs (fs.fatStartLba + u32 (c * 4) / 512) s'
        = cacheHit fs (primarySector fs c) s₀ := by
      unfold cacheHit primarySector
      rw [hd, hl]
    rw [hhit]
    have hgrow : ∀ e ∈ s.trace, e ∈ s'.trace := fun e he => ht ▸ hsub e he
    have hknown : Cached s → s'.cachedFatDev ≠ noDrive → ∃ fs c, .lookup fs c ∈ s'.trace ∧
        fs.dev = s'.cachedFatDev ∧ primarySector fs c = s'.cachedFatLba := by
      intro hc hn
      rw [hd] at hn
      rw [ht, hd, hl]
      exact (hcached hc).known hn
    have hsector : Quiet s'.blk.fails s'.trace → Cached s → s'.cachedFatDev ≠ noDrive →
        ∀ i < 512, s'.blk.disk s'.cachedFatDev (s'.cachedFatLba * 512 + i) =
          if cacheHit fs (primarySector fs c) s₀ then
            patchEntry s'.fatBuf (u32 (c * 4) % 512) v i else s'.fatBuf i := by
      intro hq hc hn i hi
      rw [hf, ht] at hq
      have h1 := (hq.complete _ hmem).1
      rw [hd] at hn
      rw [hd, hl, hb, h.sector hq hmem (hcached hc) hn i hi]
      simp only [h1, true_and]
    split
    · rename_i hhit'
      refine ⟨hf, hgrow, fun hq hc => ⟨fun hn i hi => ?_, hknown hc⟩⟩
      have := hsector hq hc hn i hi
      rw [if_pos hhit'] at this
      exact this.symm
    · rename_i hmiss
      refine ⟨hf, hgrow, fun hq hc => ⟨fun hn i hi => ?_, hknown hc⟩⟩
      have := hsector hq hc hn i hi
      rw [if_neg hmiss] at this
      exact this.symm

/-- Every step of the driver keeps the cached sector up to date, as long as the record is quiet. -/
lemma step_keepsCache {P : Option ℕ → Prop} (α : Type) (m : Program Fat32State α)
    (h : Step P α m) : Keeps KeepsCache m := by
  have hsame : ∀ {s s' : Fat32State}, s'.blk = s.blk → s'.fatBuf = s.fatBuf →
      s'.cachedFatDev = s.cachedFatDev → s'.cachedFatLba = s.cachedFatLba → s'.trace = s.trace →
      KeepsCache s s' := fun hb hf hd hl ht =>
    keepsCache_of_same (by rw [hb]) (by rw [hb]) hf hd hl (fun e he => ht ▸ he)
  cases h with
  | reading h =>
    cases h with
    | read dr lba n => exact keepsCache_read dr lba n
    | lookup fs c => exact keepsCache_lookup fs c
  | setEntry fs c v => exact keepsCache_setEntry fs c v
  | write dev lba n buf => exact keepsCache_write dev lba n buf
  | hint fs h => exact fun s => (wlp_modify _ _ s).mpr (hsame rfl rfl rfl rfl rfl)
  | allocNode nd hP =>
    intro s
    simp only [allocNode, wlp_bind, wlp_get, wlp_ite, wlp_pure, wlp_modify]
    split <;> exact hsame rfl rfl rfl rfl rfl
  | allocFs fs => exact fun s => (wlp_modify _ _ s).mpr (hsame rfl rfl rfl rfl rfl)
  | setInode i v => exact fun s => (wlp_modify _ _ s).mpr (hsame rfl rfl rfl rfl rfl)
  | growSize i e => exact fun s => (wlp_modify _ _ s).mpr (hsame rfl rfl rfl rfl rfl)

/-! ## Runs of the driver -/

/-- A call of the driver; nodes are given by their place in the pool. -/
inductive Op where
  | mount (dev : Drive) (partLba : ℕ)
  | readdir (node index : ℕ)
  | finddir (node : ℕ) (name : List UInt8)
  | read (node offset size : ℕ) (buf : Bytes)
  | write (node offset size : ℕ) (buf : Bytes)
  | create (dir : ℕ) (name : List UInt8)
  | rename (oldDir : ℕ) (oldName : List UInt8) (newDir : ℕ) (newName : List UInt8)
  | unlink (dir : ℕ) (name : List UInt8)
  | defrag (dir : ℕ)

/-- Run one call, whatever it returns. -/
def Op.exec : Op → Program Fat32State PUnit
  | .mount dev partLba => do let _ ← fat32Mount dev partLba
  | .readdir node index => do let _ ← fat32Readdir node index
  | .finddir node name => do let _ ← fat32Finddir node name
  | .read node offset size buf => do let _ ← fat32Read node offset size buf
  | .write node offset size buf => do let _ ← fat32Write node offset size buf
  | .create dir name => do let _ ← fat32Create dir name
  | .rename oldDir oldName newDir newName => do let _ ← fat32Rename oldDir oldName newDir newName
  | .unlink dir name => do let _ ← fat32Unlink dir name
  | .defrag dir => do let _ ← fat32Defrag dir

/-- Run the calls of a list one after the other. -/
def runOps : List Op → Program Fat32State PUnit
  | [] => return PUnit.unit
  | op :: ops => do
    op.exec
    runOps ops

lemma exec_built (op : Op) : Built (Step fun _ => True) op.exec := by
  cases op with
  | mount dev partLba => exact .bind (fat32Mount_built _ _ trivial) fun _ => .ret _
  | readdir node index => exact .bind (built_of_reading (fat32Readdir_built _ _)) fun _ => .ret _
  | finddir node name => exact .bind (fat32Finddir_built _ _ trivial) fun _ => .ret _
  | read node offset size buf =>
    exact .bind (built_of_reading (fat32Read_built _ _ _ _)) fun _ => .ret _
  | write node offset size buf => exact .bind (fat32Write_built _ _ _ _) fun _ => .ret _
  | create dir name => exact .bind (fat32Create_built _ _ trivial) fun _ => .ret _
  | rename oldDir oldName newDir newName =>
    exact .bind (fat32Rename_built _ _ _ _ trivial) fun _ => .ret _
  | unlink dir name => exact .bind (fat32Unlink_built _ _ trivial) fun _ => .ret _
  | defrag dir => exact .bind (fat32Defrag_built _ trivial) fun _ => .ret _

lemma runOps_built (ops : List Op) : Built (Step fun _ => True) (runOps ops) := by
  induction ops with
  | nil => exact .ret _
  | cons op ops ih => exact .bind (exec_built op) fun _ => ih

/-- The driver before the first call. -/
structure Boot (s : Fat32State) : Prop where
  dev : s.cachedFatDev = noDrive
  lba : s.cachedFatLba = 2 ^ 64 - 1
  trace : s.trace = []
  volumes : s.fsPoolUsed = 0
  nodes : s.nodePoolUsed = 0

/-- After every run of calls whose record is quiet, the cached sector is up to date. -/
theorem runOps_coherent {s₀ s : Fat32State} (hboot : Boot s₀) {ops : List Op}
    (hrun : runOps ops s₀ = some (PUnit.unit, s)) (hq : Quiet s.blk.fails s.trace) :
    Coherent s := by
  have hkeeps := (runOps_built ops).keeps step_keepsCache s₀ _ _ hrun
  have hstart : Cached s₀ :=
    ⟨fun hn => absurd hboot.dev hn, fun hn => absurd hboot.dev hn⟩
  exact (hkeeps.cached hq hstart).coherent

/-! ## A small volume -/

/-- The boot sector of a volume of `total` sectors with one-sector clusters and tables. -/
def sampleBoot (numFats total : ℕ) : Bytes :=
  let b := Bytes.put16 Bytes.zeros 11 512
  let b := Bytes.put8 b 13 1
  let b := Bytes.put16 b 14 1
  let b := Bytes.put8 b 16 (UInt8.ofNat numFats)
  let b := Bytes.put32 b 32 total
  let b := Bytes.put32 b 36 1
  Bytes.put32 b 44 2

/-- A formatted volume, with an empty root directory in cluster 2. -/
def sampleDisk (numFats total : ℕ) : Bytes := fun i =>
  if i < 512 then sampleBoot numFats total i
  else if i < 512 * (1 + numFats) then Bytes.put32 Bytes.zeros 8 0x0FFFFFFF (i % 512)
  else 0

/-- The driver before the first call, with the same contents on every drive. -/
def bootState (disk : Bytes) (fails : ℕ → Bool) : Fat32State where
  blk := ⟨fun _ => disk, fails, 0, []⟩
  fatBuf := Bytes.zeros
  cachedFatDev := noDrive
  cachedFatLba := 2 ^ 64 - 1
  fsPoolUsed := 0
  nextFreeHint := fun _ => 0
  nodePool := fun _ => ⟨[], .file, 0, 0, none,
    ⟨⟨0, ⟨0, 0⟩, 0, 0, 0, 0, 0, 0, 0, 0, 0, 0⟩, false, 0, 0⟩⟩
  nodePoolUsed := 0
  trace := []

lemma boot_bootState (disk : Bytes) (fails : ℕ → Bool) : Boot (bootState disk fails) :=
  ⟨rfl, rfl, rfl, rfl, rfl⟩

/-- Mount the volume, create the file `A` and write one byte to it. -/
def writeOneByte : List Op := [.mount ⟨0, 0⟩ 0, .create 0 [65], .write 1 0 1 Bytes.zeros]

set_option maxRecDepth 100000 in
/-- The first entry of the new file is written to both copies of the table, and patched. -/
theorem runOps_coherent_writeOneByte : ∃ s,
    runOps writeOneByte (bootState (sampleDisk 2 12) fun _ => false) = some (PUnit.unit, s) ∧
    Quiet s.blk.fails s.trace ∧ s.fatBuf 12 = 0xF8 ∧ Coherent s := by
  obtain ⟨s, hrun, hs⟩ := exists_of_any
    (m := runOps writeOneByte) (s := bootState (sampleDisk 2 12) fun _ => false)
    (p := fun s => decide (Quiet s.blk.fails s.trace ∧ s.fatBuf 12 = 0xF8)) (by decide +kernel)
  obtain ⟨hq, hb⟩ := of_decide_eq_true hs
  exact ⟨s, hrun, hq, hb, runOps_coherent (boot_bootState _ _) hrun hq⟩

set_option maxRecDepth 100000 in
/-- When the transfer that writes the second copy fails, the first copy has the new entry and the
cached sector the old one. -/
theorem stale_after_failed_copy : Boot (bootState (sampleDisk 2 12) fun n => n == 7) ∧ ∃ s,
    runOps writeOneByte (bootState (sampleDisk 2 12) fun n => n == 7) = some (PUnit.unit, s) ∧
    ¬ Coherent s := by
  refine ⟨boot_bootState _ _, ?_⟩
  obtain ⟨s, hrun, hs⟩ := exists_of_any
    (m := runOps writeOneByte) (s := bootState (sampleDisk 2 12) fun n => n == 7)
    (p := fun s => decide (s.cachedFatDev ≠ noDrive ∧
      s.fatBuf 12 ≠ s.blk.disk s.cachedFatDev (s.cachedFatLba * 512 + 12))) (by decide +kernel)
  obtain ⟨hn, hne⟩ := of_decide_eq_true hs
  exact ⟨s, hrun, fun hc => hne (hc hn 12 (by decide))⟩

end Fat32

end CoolFrost

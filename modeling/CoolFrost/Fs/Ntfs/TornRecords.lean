import CoolFrost.Fs.Ntfs.MftAddressing

/-!
# NTFS: torn records

A record is torn if one of its sectors does not end in the update sequence number.
`read_mft_record` fails on a torn record, and so do the functions that read one, but
`ntfs_dir_lookup` does not look at what `apply_fixup` returns for an `INDX` record and walks the
half restored record all the same.  `tornHonoured_iff` says when this shows: when a torn record that
the lookup comes to lists an entry.
-/

namespace CoolFrost

open Program

namespace Ntfs

variable {σ : Type}

/-- A record, as it came from the drive, with a sector that does not end in the update sequence
number. -/
def Torn (b : Bytes) (size : ℕ) : Prop := FixupLayout b size ∧ ¬Sealed b size

/-! ## Walks without a match -/

section Walks

variable {b : Bytes} {base total : ℕ}

/-- The walk from `off` comes to an entry that is listed. -/
inductive Lists (b : Bytes) (base total : ℕ) : ℕ → Prop
  | here {off off' : ℕ} (h : entryStep b base total off = some (some (true, off'))) :
      Lists b base total off
  | later {off off' : ℕ} (h : entryStep b base total off = some (some (false, off')))
      (hrest : Lists b base total off') : Lists b base total off

lemma walkStep_of_stop {q : Query} {off counter : ℕ} (h : entryStep b base total off = some none) :
    walkStep b base total q (off, counter) = some (.inr (.inl counter)) := by
  rw [walkStep, h]
  rfl

lemma walkStep_of_entry {q : Query} {off off' counter counter' : ℕ} {listed : Bool}
    (h : entryStep b base total off = some (some (listed, off')))
    (hres : visitResult b (base + off) listed counter q = .inl counter') :
    walkStep b base total q (off, counter) = some (.inl (off', counter')) := by
  rw [walkStep, h]
  simp only [Option.map_some, hres]

lemma walkStep_of_found {q : Query} {off off' counter : ℕ} {listed : Bool} {found : ℕ × ℕ}
    (h : entryStep b base total off = some (some (listed, off')))
    (hres : visitResult b (base + off) listed counter q = .inr found) :
    walkStep b base total q (off, counter) = some (.inr (.inr found)) := by
  rw [walkStep, h]
  simp only [Option.map_some, hres]

/-- A round that ends the walk does so because of its entry. -/
lemma walkStep_leave {q : Query} {v : ℕ × ℕ} {r : ℕ ⊕ ℕ × ℕ}
    (h : walkStep b base total q v = some (.inr r)) :
    (entryStep b base total v.1 = some none ∧ r = .inl v.2) ∨
      ∃ listed off found, entryStep b base total v.1 = some (some (listed, off)) ∧
        visitResult b (base + v.1) listed v.2 q = .inr found ∧ r = .inr found := by
  obtain ⟨e, he, hv⟩ := Option.map_eq_some_iff.mp h
  cases e with
  | none => exact .inl ⟨he, (Sum.inr.inj hv).symm⟩
  | some e =>
    obtain ⟨listed, off⟩ := e
    dsimp only at hv
    split at hv
    · cases hv
    · rename_i found hres
      exact .inr ⟨listed, off, found, he, hres, (Sum.inr.inj hv).symm⟩

/-- A walk that comes to no listed entry finds nothing, whatever it looks for. -/
lemma scan_eq_of_not_lists {q : Query} {v : ℕ × ℕ} {r : ℕ ⊕ ℕ × ℕ}
    (h : Scans (walkStep b base total q) v r) (hlists : ¬Lists b base total v.1) :
    r = .inl v.2 := by
  induction h with
  | leave h =>
    obtain ⟨-, hr⟩ | ⟨listed, off, found, he, hres, -⟩ := walkStep_leave h
    · exact hr
    · cases listed with
      | true => exact absurd (.here he) hlists
      | false =>
        rw [visitResult_false] at hres
        cases hres
  | next h _ ih =>
    obtain ⟨listed, he, hres⟩ := walkStep_next h
    cases listed with
    | true => exact absurd (.here he) hlists
    | false =>
      rw [visitResult_false] at hres
      rw [ih fun hrest => hlists (.later he hrest), Sum.inl.inj hres]

/-- A walk that comes to a listed entry finds it when it looks for the next number. -/
lemma Lists.scan {off : ℕ} (h : Lists b base total off) (counter : ℕ) :
    ∃ found, Scans (walkStep b base total (.index counter)) (off, counter) (.inr found) := by
  induction h with
  | here h => exact ⟨_, .leave (walkStep_of_found h (if_pos rfl))⟩
  | later h _ ih =>
    obtain ⟨found, hrest⟩ := ih
    exact ⟨found, .next (walkStep_of_entry h (visitResult_false ..)) hrest⟩

/-- The index −1 matches nothing: a listed entry is only counted. -/
lemma visitResult_none (ie counter : ℕ) (listed : Bool) :
    visitResult b ie listed counter (.index (-1)) = .inl (counter + listed.toNat) := by
  cases listed with
  | false => rfl
  | true =>
    have hne : ¬(counter : ℤ) = -1 := by omega
    rw [visitResult, if_pos rfl, if_neg hne]
    rfl

/-- A walk that finds nothing comes to its end with every query, the index −1 in particular. -/
lemma scan_passes {q : Query} {v : ℕ × ℕ} {r : ℕ ⊕ ℕ × ℕ} {counter : ℕ}
    (h : Scans (walkStep b base total q) v r) (hr : r = .inl counter) (d : ℕ) :
    ∃ d', Scans (walkStep b base total (.index (-1))) (v.1, d) (.inl d') := by
  induction h generalizing d with
  | leave h =>
    obtain ⟨he, -⟩ | ⟨_, _, _, -, -, rfl⟩ := walkStep_leave h
    · exact ⟨d, .leave (walkStep_of_stop he)⟩
    · cases hr
  | next h _ ih =>
    obtain ⟨listed, he, -⟩ := walkStep_next h
    obtain ⟨d', hrest⟩ := ih hr (d + listed.toNat)
    exact ⟨d', .next (walkStep_of_entry he (visitResult_none _ _ _)) hrest⟩

/-- A walk that only counts goes the same way for every number that it does not come to. -/
lemma scan_index {v : ℕ × ℕ} {r : ℕ ⊕ ℕ × ℕ} {counter : ℕ}
    (h : Scans (walkStep b base total (.index (-1))) v r) (hr : r = .inl counter) :
    v.2 ≤ counter ∧ ∀ i, counter ≤ i → Scans (walkStep b base total (.index i)) v r := by
  induction h with
  | leave h =>
    obtain ⟨he, rfl⟩ | ⟨_, _, _, -, -, rfl⟩ := walkStep_leave h
    · obtain rfl := Sum.inl.inj hr
      exact ⟨le_rfl, fun i _ => .leave (walkStep_of_stop he)⟩
    · cases hr
  | next h _ ih =>
    obtain ⟨listed, he, hres⟩ := walkStep_next h
    obtain ⟨hle, hrest⟩ := ih hr
    rw [visitResult_none] at hres
    have hcount := Sum.inl.inj hres
    refine ⟨by omega, fun i hi => .next (walkStep_of_entry he ?_) (hrest i hi)⟩
    cases listed with
    | false => exact congrArg Sum.inl hcount
    | true =>
      rw [← hcount] at hle ⊢
      exact if_neg (by simp only [Bool.toNat_true] at hle; omega)

end Walks

/-! ## Lookups without a match -/

section Lookups

variable {fs : NtfsFs}

/-- What `lookupIndx` makes of the record that it has read. -/
lemma wp_lookupIndx (record : Bytes) (ia off recSize counter : ℕ) (q : Query)
    (Q : ℕ ⊕ Found → NtfsState → Prop) (s : NtfsState) :
    wp (lookupIndx fs record ia off recSize counter q) Q s ↔
      wp (readNonresident fs record ia off recSize s.indxBuf) (fun x t =>
        if x.1 < int32 recSize ∨ Bytes.slice x.2 0 4 ≠ indxSignature then
          Q (.inl counter) { t with indxBuf := x.2 }
        else
          wp (applyFixup x.2 (Bytes.leNat x.2 4 2) (Bytes.leNat x.2 6 2) recSize) (fun y t =>
            ∃ r, Scans (walkStep y.1 24 (Bytes.leNat y.1 (24 + 4) 4) q)
                (Bytes.leNat y.1 24 4, counter) r ∧
              Q (r.elim .inl fun found => .inr ⟨found.1, some x.2, found.2⟩)
                { t with indxBuf := y.1 }) { t with indxBuf := x.2 }) s := by
  simp only [lookupIndx, wp_bind, wp_get, wp_modify, wp_ite, wp_pure, wp_load, wp_walkIndexEntries]
  refine iff_of_eq (congrArg (fun R => wp _ R s) (funext₂ fun x t => propext ?_))
  by_cases hshort : x.1 < int32 recSize
  · rw [if_pos hshort, if_pos (.inl hshort)]
  rw [if_neg hshort]
  by_cases hsig : Bytes.slice x.2 0 4 ≠ indxSignature
  · rw [if_pos hsig, if_pos (.inr hsig)]
  rw [if_neg hsig, if_neg (not_or.mpr ⟨hshort, hsig⟩), and_iff_right (by decide),
    and_iff_right (by decide)]
  refine iff_of_eq (congrArg (fun R => wp _ R _) (funext₂ fun y t => propext ?_))
  rw [and_iff_right (by decide)]
  refine exists_congr fun r => and_congr_right fun _ => ?_
  cases r with
  | inl c => rw [wp_pure, Sum.elim_inl]
  | inr found => rw [wp_pure, Sum.elim_inr]

/-- A round of a lookup that finds nothing does the same to the state with every query. -/
lemma lookupIndx_passes {record : Bytes} {ia off recSize counter counter' : ℕ} {q : Query}
    {s t : NtfsState}
    (h : lookupIndx fs record ia off recSize counter q s = some (.inl counter', t)) (d : ℕ) :
    ∃ d', lookupIndx fs record ia off recSize d (.index (-1)) s = some (.inl d', t) := by
  rw [← wp_eq_iff, wp_lookupIndx] at h
  suffices hwp : wp (lookupIndx fs record ia off recSize d (.index (-1)))
      (fun r t' => ∃ d', r = .inl d' ∧ t' = t) s by
    obtain ⟨_, _, hrun, d', rfl, rfl⟩ := hwp
    exact ⟨d', hrun⟩
  rw [wp_lookupIndx]
  refine wp_mono h fun x t₁ hx => ?_
  split at hx
  · rename_i hskip
    rw [if_pos hskip]
    exact ⟨d, rfl, hx.2⟩
  · rename_i hskip
    rw [if_neg hskip]
    refine wp_mono hx fun y t₂ hy => ?_
    obtain ⟨r, hscan, hr, ht⟩ := hy
    cases r with
    | inl c =>
      obtain ⟨d', hpass⟩ := scan_passes hscan rfl d
      exact ⟨_, hpass, d', rfl, ht⟩
    | inr found => cases hr

/-- A round of a lookup that only counts is the same for every number that it does not come to. -/
lemma lookupIndx_index {record : Bytes} {ia off recSize counter counter' : ℕ} {s t : NtfsState}
    (h : lookupIndx fs record ia off recSize counter (.index (-1)) s = some (.inl counter', t)) :
    counter ≤ counter' ∧ ∀ i : ℕ, counter' ≤ i →
      lookupIndx fs record ia off recSize counter (.index i) s = some (.inl counter', t) := by
  have hwp := wp_eq_iff.mpr h
  rw [wp_lookupIndx] at hwp
  constructor
  · obtain ⟨x, t₁, -, hx⟩ := hwp
    split at hx
    · exact (Sum.inl.inj hx.1).le
    · obtain ⟨y, t₂, -, r, hscan, hr, -⟩ := hx
      cases r with
      | inl c => exact Sum.inl.inj hr ▸ (scan_index hscan rfl).1
      | inr found => cases hr
  · intro i hi
    rw [← wp_eq_iff, wp_lookupIndx]
    refine wp_mono hwp fun x t₁ hx => ?_
    split at hx
    · rename_i hskip
      rw [if_pos hskip]
      exact hx
    · rename_i hskip
      rw [if_neg hskip]
      refine wp_mono hx fun y t₂ hy => ?_
      obtain ⟨r, hscan, hr, ht⟩ := hy
      cases r with
      | inl c => exact ⟨_, (scan_index hscan rfl).2 i (Sum.inl.inj hr ▸ hi), hr, ht⟩
      | inr found => cases hr

lemma allocationRound_next_iff {a : IndxRecords} {q : Query} {v v' : ℕ × ℕ} {s t : NtfsState} :
    allocationRound fs a q v s = some (.inl v', t) ↔ u32 (v.1 + a.recSize) ≤ a.total ∧
      v'.1 = u32 (v.1 + a.recSize) ∧
      lookupIndx fs a.record a.ia v.1 a.recSize v.2 q s = some (.inl v'.2, t) := by
  rw [← wp_eq_iff, allocationRound, wp_ite]
  split
  · rename_i hle
    rw [wp_bind, and_iff_right hle, ← wp_eq_iff]
    constructor
    · rintro ⟨r, t', hr, hv⟩
      cases r with
      | inl c =>
        obtain ⟨hc, rfl⟩ := (wp_pure ..).mp hv
        obtain rfl := Sum.inl.inj hc
        exact ⟨rfl, wp_of_eq hr ⟨rfl, rfl⟩⟩
      | inr found => cases ((wp_pure ..).mp hv).1
    · rintro ⟨hoff, r, t', hr, rfl, rfl⟩
      refine wp_of_eq hr ((wp_pure ..).mpr ⟨?_, rfl⟩)
      rw [← hoff]
  · rename_i hle
    rw [wp_pure]
    exact iff_of_false (fun h => by cases h.1) fun h => hle h.1

lemma allocationRound_found_iff {a : IndxRecords} {q : Query} {v : ℕ × ℕ} {e : Found}
    {s t : NtfsState} :
    allocationRound fs a q v s = some (.inr (some e), t) ↔ u32 (v.1 + a.recSize) ≤ a.total ∧
      lookupIndx fs a.record a.ia v.1 a.recSize v.2 q s = some (.inr e, t) := by
  rw [← wp_eq_iff, allocationRound, wp_ite]
  split
  · rename_i hle
    rw [wp_bind, and_iff_right hle, ← wp_eq_iff]
    constructor
    · rintro ⟨r, t', hr, hv⟩
      cases r with
      | inl c => cases ((wp_pure ..).mp hv).1
      | inr found =>
        obtain ⟨he, rfl⟩ := (wp_pure ..).mp hv
        obtain rfl := Option.some.inj (Sum.inr.inj he)
        exact wp_of_eq hr ⟨rfl, rfl⟩
    · rintro ⟨r, t', hr, rfl, rfl⟩
      exact wp_of_eq hr ((wp_pure ..).mpr ⟨rfl, rfl⟩)
  · rename_i hle
    rw [wp_pure]
    exact iff_of_false (fun h => by cases h.1) fun h => hle h.1

/-- The rounds of a lookup with any query are those of the lookup with the index −1. -/
lemma rounds_passes {a : IndxRecords} {q : Query} {n : ℕ} {v v' : ℕ × ℕ} {s t : NtfsState} (d : ℕ)
    (h : rounds (allocationRound fs a q) n v s = some (v', t)) :
    ∃ d', rounds (allocationRound fs a (.index (-1))) n (v.1, d) s = some ((v'.1, d'), t) := by
  have hstep : ∀ (v w v' : ℕ × ℕ) (s t : NtfsState), v.1 = w.1 →
      allocationRound fs a q v s = some (.inl v', t) →
      ∃ w' : ℕ × ℕ, v'.1 = w'.1 ∧ allocationRound fs a (.index (-1)) w s = some (.inl w', t) := by
    rintro v ⟨off, d⟩ v' s t rfl hround
    obtain ⟨hle, hoff, hindx⟩ := allocationRound_next_iff.mp hround
    obtain ⟨d', hpass⟩ := lookupIndx_passes hindx d
    exact ⟨(v'.1, d'), rfl, allocationRound_next_iff.mpr ⟨hle, hoff, hpass⟩⟩
  obtain ⟨⟨off, d'⟩, rfl, hrounds⟩ := rounds_simulate (fun v w : ℕ × ℕ => v.1 = w.1) hstep
    (b := v) (c := (v.1, d)) rfl h
  exact ⟨d', hrounds⟩

/-- The rounds that only count are the same for every number that they do not come to. -/
lemma rounds_index {a : IndxRecords} {n : ℕ} {v v' : ℕ × ℕ} {s t : NtfsState}
    (h : rounds (allocationRound fs a (.index (-1))) n v s = some (v', t)) :
    v.2 ≤ v'.2 ∧ ∀ i : ℕ, v'.2 ≤ i →
    rounds (allocationRound fs a (.index i)) n v s = some (v', t) := by
  induction n generalizing v s with
  | zero =>
    obtain ⟨rfl, rfl⟩ := Prod.mk.inj (Option.some.inj h)
    exact ⟨le_rfl, fun _ _ => rfl⟩
  | succ n ih =>
    rw [rounds] at h
    split at h
    · rename_i w s₁ hround
      obtain ⟨hle, hoff, hindx⟩ := allocationRound_next_iff.mp hround
      obtain ⟨hcount, hsame⟩ := lookupIndx_index hindx
      obtain ⟨hrest, hrounds⟩ := ih h
      refine ⟨hcount.trans hrest, fun i hi => ?_⟩
      rw [rounds, allocationRound_next_iff.mpr ⟨hle, hoff, hsame i (hrest.trans hi)⟩]
      exact hrounds i hi
    · cases h

/-- What the first part of a lookup finds, and where it goes on. -/
lemma wp_lookupRoot (dirMft : ℕ) (q : Query) (Q : Option Found ⊕ IndxRecords → NtfsState → Prop)
    (s : NtfsState) :
    wp (lookupRoot fs dirMft q) Q s ↔ wp (readMftRecord fs dirMft) (fun rc t =>
      if rc ≠ 0 then Q (.inl none) t
      else
        wp (findAttr t.mftBuf attrIndexRoot) (fun r t' => r.elim (Q (.inl none) t') fun ir =>
          ir + 20 + 2 ≤ bufSize ∧
            wp (walkIndexEntries t.mftBuf (ir + Bytes.leNat t.mftBuf (ir + 20) 2 + 16) 0 q)
              (fun r t' => r.elim (fun counter =>
                wp (findAttr t.mftBuf attrIndexAllocation) (fun r t' =>
                  r.elim (Q (.inl none) t') fun ia =>
                    ia + 8 + 1 ≤ bufSize ∧
                      if Bytes.leNat t.mftBuf (ia + 8) 1 = 0 then Q (.inl none) t'
                      else ia + 48 + 8 ≤ bufSize ∧
                        Q (.inr ⟨t.mftBuf, ia, u32 (Bytes.leNat t.mftBuf (ia + 48) 8), indxSize fs,
                          counter⟩) t') t')
                (fun found => Q (.inl (some ⟨found.1, none, found.2⟩)) t')) t') t) s := by
  simp only [lookupRoot, wp_bind, wp_get, wp_ite, wp_pure]
  refine iff_of_eq (congrArg (fun R => wp _ R s) (funext₂ fun rc t => ?_))
  refine if_congr Iff.rfl rfl (congrArg (fun R => wp _ R t) (funext₂ fun r t' => ?_))
  cases r with
  | none => exact propext (wp_pure ..)
  | some ir =>
    simp only [wp_bind, wp_load, Option.elim_some]
    refine congrArg (_ ∧ ·) (congrArg (fun R => wp _ R t') (funext₂ fun r t' => ?_))
    cases r with
    | inr found => exact propext (wp_pure ..)
    | inl counter =>
      simp only [wp_bind, Sum.elim_inl]
      refine congrArg (fun R => wp _ R t') (funext₂ fun r t' => ?_)
      cases r with
      | none => exact propext (wp_pure ..)
      | some ia => simp only [wp_bind, wp_load, wp_ite, wp_pure, Option.elim_some]

/-- A first part that finds nothing goes on at the same place with every query. -/
lemma lookupRoot_passes {dirMft : ℕ} {q : Query} {a : IndxRecords} {s t : NtfsState}
    (h : lookupRoot fs dirMft q s = some (.inr a, t)) :
    ∃ c, lookupRoot fs dirMft (.index (-1)) s = some (.inr { a with counter := c }, t) := by
  rw [← wp_eq_iff, wp_lookupRoot] at h
  suffices hwp : wp (lookupRoot fs dirMft (.index (-1)))
      (fun r t' => ∃ c, r = .inr { a with counter := c } ∧ t' = t) s by
    obtain ⟨_, _, hrun, c, rfl, rfl⟩ := hwp
    exact ⟨c, hrun⟩
  rw [wp_lookupRoot]
  refine wp_mono h fun rc t₁ h => ?_
  split at h
  · cases h.1
  rename_i hrc
  rw [if_neg hrc]
  refine wp_mono h fun r t₂ h => ?_
  cases r with
  | none => cases h.1
  | some ir =>
    obtain ⟨hir, h⟩ := h
    refine ⟨hir, ?_⟩
    rw [wp_walkIndexEntries] at h ⊢
    obtain ⟨hbase, r, hscan, h⟩ := h
    cases r with
    | inr found => cases h.1
    | inl counter =>
      obtain ⟨c, hpass⟩ := scan_passes hscan rfl 0
      refine ⟨hbase, _, hpass, wp_mono h fun r t₃ h => ?_⟩
      cases r with
      | none => cases h.1
      | some ia =>
        refine ⟨h.1, ?_⟩
        have h := h.2
        split at h
        · cases h.1
        · rename_i hresident
          rw [if_neg hresident]
          obtain ⟨hin, ha, ht⟩ := h
          obtain rfl := Sum.inr.inj ha
          exact ⟨hin, c, rfl, ht⟩

/-- A first part that only counts is the same for every number that it does not come to. -/
lemma lookupRoot_index {dirMft : ℕ} {a : IndxRecords} {s t : NtfsState}
    (h : lookupRoot fs dirMft (.index (-1)) s = some (.inr a, t)) {i : ℕ} (hi : a.counter ≤ i) :
    lookupRoot fs dirMft (.index i) s = some (.inr a, t) := by
  rw [← wp_eq_iff, wp_lookupRoot] at h ⊢
  refine wp_mono h fun rc t₁ h => ?_
  split at h
  · cases h.1
  rename_i hrc
  rw [if_neg hrc]
  refine wp_mono h fun r t₂ h => ?_
  cases r with
  | none => cases h.1
  | some ir =>
    obtain ⟨hir, h⟩ := h
    refine ⟨hir, ?_⟩
    rw [wp_walkIndexEntries] at h ⊢
    obtain ⟨hbase, r, hscan, h⟩ := h
    cases r with
    | inr found => cases h.1
    | inl counter =>
      refine ⟨hbase, _, (scan_index hscan rfl).2 i ?_, h⟩
      obtain ⟨r, t₃, -, h⟩ := h
      cases r with
      | none => cases h.1
      | some ia =>
        have h := h.2
        split at h
        · cases h.1
        · obtain rfl := Sum.inr.inj h.2.1
          exact hi

/-- What the first part finds is in the index root; what it leaves is in records of the size that
the volume has for them. -/
lemma lookupRoot_result {dirMft : ℕ} {q : Query} {s t : NtfsState} {r : Option Found ⊕ IndxRecords}
    (h : lookupRoot fs dirMft q s = some (r, t)) :
    r.elim (fun found => ∀ e, found = some e → e.indx = none)
    (fun a => a.recSize = indxSize fs) := by
  have hnone : ∀ e, (none : Option Found) = some e → e.indx = none := fun _ he => by cases he
  have hwp : wp (lookupRoot fs dirMft q) (fun r' t' => r' = r ∧ t' = t) s := wp_eq_iff.mpr h
  rw [wp_lookupRoot] at hwp
  obtain ⟨rc, t₁, -, hwp⟩ := hwp
  split at hwp
  · exact hwp.1 ▸ hnone
  obtain ⟨_ | ir, t₂, -, hwp⟩ := hwp
  · exact hwp.1 ▸ hnone
  obtain ⟨-, _ | found, t₃, -, hwp⟩ := hwp
  · obtain ⟨_ | ia, t₄, -, hwp⟩ := hwp
    · exact hwp.1 ▸ hnone
    · have hwp := hwp.2
      split at hwp
      · exact hwp.1 ▸ hnone
      · exact hwp.2.1 ▸ rfl
  · refine hwp.1 ▸ fun e he => ?_
    rw [← Option.some.inj he]

end Lookups

/-! ## What becomes of torn records -/

section Torn

variable {fs : NtfsFs}

/-- `read_nonresident` comes back with the whole `INDX` record at `off`, which is `b`. -/
def IndxRead (fs : NtfsFs) (a : IndxRecords) (off : ℕ) (s : NtfsState) (b : Bytes) : Prop :=
  wp (readNonresident fs a.record a.ia off a.recSize s.indxBuf) (fun x _ => x.2 = b ∧
    ¬(x.1 < int32 a.recSize ∨ Bytes.slice x.2 0 4 ≠ indxSignature)) s

/-- A lookup that matches nothing comes to the `INDX` record at `off`, in the state `t`. -/
def ComesTo (fs : NtfsFs) (dirMft : ℕ) (s : NtfsState) (a : IndxRecords) (off : ℕ) (t : NtfsState) :
    Prop :=
  ∃ s₀ counter, ∃ n < loopFuel, lookupRoot fs dirMft (.index (-1)) s = some (.inr a, s₀) ∧
    rounds (allocationRound fs a (.index (-1))) n (0, a.counter) s₀ = some ((off, counter), t) ∧
    u32 (off + a.recSize) ≤ a.total

/-- The entries of an `INDX` record are not all hidden. -/
def ListsEntry (b : Bytes) : Prop := Lists b 24 (Bytes.leNat b (24 + 4) 4) (Bytes.leNat b 24 4)

/-- No torn record that the lookup comes to lists an entry, after `apply_fixup` has left it half
restored. -/
def TornListNothing (fs : NtfsFs) (dirMft : ℕ) (s : NtfsState) : Prop :=
  ∀ a off t b, ComesTo fs dirMft s a off t → IndxRead fs a off t b → Torn b (indxSize fs) →
    ¬ListsEntry (fixedUp b (indxSize fs)).1

/-- `apply_fixup` restores a record, and nothing in a torn record of the node's directory or file is
returned.  `ntfs_readdir` and `ntfs_finddir` return the entries that `ntfs_dir_lookup` finds. -/
structure TornHonoured (node : ℕ) (s : NtfsState) : Prop where
  restores : ∀ record size, FixupLayout record size → Sealed record size →
    wp (applyFixup record (Bytes.leNat record 4 2) (Bytes.leNat record 6 2) size) (fun r s' =>
      s' = s ∧ r.2 = true ∧
      (∀ j < size / 512, ∀ k < 2,
        r.1 (j * 512 + 510 + k) = record (Bytes.leNat record 4 2 + 2 * (j + 1) + k)) ∧
      ∀ i, i % 512 < 510 ∨ size ≤ i → r.1 i = record i) s
  file : wp (fetchMftRecord (s.nodePool node).fs (s.nodePool node).inode)
      (fun ok s' => ok = true → Torn s'.mftBuf (s.nodePool node).fs.mftRecordSize) s →
    (∀ index, wp (ntfsReaddir node index) (fun r _ => r = none) s) ∧
    (∀ name, wp (ntfsFinddir node name) (fun r _ => r = none) s) ∧
    ∀ offset size out, wp (ntfsRead node offset size out) (fun r _ => r = (-1, out)) s
  indx : ∀ q, wlp (ntfsDirLookup (s.nodePool node).fs (s.nodePool node).inode q) (fun r _ =>
    ∀ e b, r = some e → e.indx = some b → ¬Torn b (indxSize (s.nodePool node).fs)) s

/-- Putting back all sector ends restores them from the array, and changes nothing else. -/
lemma putBack_restores {b : Bytes} {size : ℕ} (h : FixupLayout b size) :
    (∀ j < size / 512, ∀ k < 2,
      putBack b (size / 512) (j * 512 + 510 + k) = b (Bytes.leNat b 4 2 + 2 * (j + 1) + k)) ∧
    ∀ i, i % 512 < 510 ∨ size ≤ i → putBack b (size / 512) i = b i := by
  have hwhole := h.whole
  constructor
  · intro j hj k hk
    have hdiv : (j * 512 + 510 + k) / 512 = j := by omega
    have hmod : (j * 512 + 510 + k) % 512 - 510 = k := by omega
    rw [putBack, if_pos ⟨by omega, by omega⟩, hdiv, hmod]
  · intro i hi
    exact if_neg fun hlt => by omega

/-- `read_mft_record` fails on a torn record. -/
lemma wp_readMftRecord_torn {n : ℕ} {s : NtfsState}
    (h : wp (fetchMftRecord fs n) (fun ok s' => ok = true → Torn s'.mftBuf fs.mftRecordSize) s) :
    wp (readMftRecord fs n) (fun rc _ => rc ≠ 0) s := by
  rw [readMftRecord, wp_bind]
  refine wp_mono h fun ok s' htorn => ?_
  cases ok with
  | false => exact (wp_pure ..).mpr (by decide)
  | true =>
    obtain ⟨hlayout, hsealed⟩ := htorn rfl
    simp only [if_true, wp_bind, wp_get]
    refine wp_ite_intro (fun _ => (wp_pure ..).mpr (by decide)) fun _ => ?_
    simp only [wp_bind, wp_load]
    refine ⟨by decide, by decide, (wp_applyFixup hlayout ..).mpr ?_⟩
    have hfalse : ¬(fixedUp s'.mftBuf fs.mftRecordSize).2 = true :=
      fun h => hsealed ((fixedUp_snd ..).mp h)
    simp only [wp_modify, wp_pure, if_neg hfalse]
    decide

lemma wp_ntfsDirLookup_torn {dirMft : ℕ} {s : NtfsState} (q : Query)
    (h : wp (readMftRecord fs dirMft) (fun rc _ => rc ≠ 0) s) :
    wp (ntfsDirLookup fs dirMft q) (fun r _ => r = none) s := by
  rw [ntfsDirLookup, wp_bind, wp_lookupRoot]
  refine wp_mono h fun rc t hrc => ?_
  rw [if_pos hrc]
  exact (wp_pure ..).mpr rfl

/-- An entry that a lookup finds in an `INDX` record is in one that the lookup comes to, and found
by the walk over what `apply_fixup` has made of it. -/
lemma found_indx {dirMft : ℕ} {q : Query} {s t : NtfsState} {e : Found} {b : Bytes}
    (h : ntfsDirLookup fs dirMft q s = some (some e, t)) (hb : e.indx = some b)
    (htorn : Torn b (indxSize fs)) :
    ∃ a off t₀, ComesTo fs dirMft s a off t₀ ∧ IndxRead fs a off t₀ b ∧
      ListsEntry (fixedUp b (indxSize fs)).1 := by
  rw [ntfsDirLookup, bind_eq_some] at h
  obtain ⟨x, s₀, hroot, hrest⟩ := h
  have hresult := lookupRoot_result hroot
  cases x with
  | inl r =>
    obtain ⟨rfl, rfl⟩ := Prod.mk.inj (Option.some.inj hrest)
    exact absurd ((hresult e rfl).symm.trans hb) (by simp)
  | inr a =>
    obtain ⟨n, hn, v, t₀, hrounds, hleave⟩ := iter_eq_some_iff.mp hrest
    obtain ⟨hle, hindx⟩ := allocationRound_found_iff.mp hleave
    have hsize : a.recSize = indxSize fs := hresult
    obtain ⟨c, hroot'⟩ := lookupRoot_passes hroot
    obtain ⟨d, hrounds'⟩ := rounds_passes c hrounds
    refine ⟨{ a with counter := c }, v.1, t₀, ⟨s₀, d, n, hn, hroot', hrounds', hle⟩, ?_⟩
    rw [← wp_eq_iff, wp_lookupIndx] at hindx
    obtain ⟨x, t₁, hread, hx⟩ := hindx
    split at hx
    · cases hx.1
    rename_i hskip
    obtain ⟨y, t₂, hfix, r, hscan, hr, -⟩ := hx
    cases r with
    | inl c => cases hr
    | inr found =>
      obtain rfl := Sum.inr.inj hr
      obtain rfl := Option.some.inj hb
      rw [← hsize] at htorn ⊢
      have hy : fixedUp x.2 a.recSize = y :=
        (wp_applyFixup htorn.1 (fun r _ => r = y) _).mp (wp_of_eq hfix rfl)
      refine ⟨wp_of_eq hread ⟨rfl, hskip⟩, ?_⟩
      rw [hy]
      by_contra hlists
      have hnone := scan_eq_of_not_lists hscan hlists
      cases hnone

/-- The first entry of a torn record that a lookup comes to is found when its number is asked
for. -/
lemma lookup_of_lists {dirMft : ℕ} {s t₀ : NtfsState} {a : IndxRecords} {off : ℕ} {b : Bytes}
    (hcomes : ComesTo fs dirMft s a off t₀) (hread : IndxRead fs a off t₀ b)
    (htorn : Torn b (indxSize fs)) (hlists : ListsEntry (fixedUp b (indxSize fs)).1) :
    ∃ i t e, ntfsDirLookup fs dirMft (.index i) s = some (some e, t) ∧ e.indx = some b := by
  obtain ⟨s₀, counter, n, hn, hroot, hrounds, hle⟩ := hcomes
  have hsize : a.recSize = indxSize fs := lookupRoot_result hroot
  obtain ⟨hcount, hsame⟩ := rounds_index hrounds
  rw [← hsize] at htorn hlists
  -- the entries before the record are counted, and the next number is that of its first entry
  obtain ⟨found, hscan⟩ := Lists.scan hlists counter
  have hround : ∃ e t, lookupIndx fs a.record a.ia off a.recSize counter (.index counter) t₀ =
      some (.inr e, t) ∧ e.indx = some b := by
    suffices hwp : wp (lookupIndx fs a.record a.ia off a.recSize counter (.index counter))
        (fun r _ => ∃ e, r = .inr e ∧ e.indx = some b) t₀ by
      obtain ⟨_, t, hrun, e, rfl, he⟩ := hwp
      exact ⟨e, t, hrun, he⟩
    rw [wp_lookupIndx]
    refine wp_mono hread fun x t₁ hx => ?_
    obtain ⟨rfl, hskip⟩ := hx
    rw [if_neg hskip, wp_applyFixup htorn.1]
    exact ⟨_, hscan, _, rfl, rfl⟩
  obtain ⟨e, t, hround, he⟩ := hround
  refine ⟨counter, t, e, ?_, he⟩
  rw [ntfsDirLookup, bind_eq_some]
  refine ⟨_, s₀, lookupRoot_index hroot hcount, iter_eq_some_iff.mpr ?_⟩
  exact ⟨n, hn, _, t₀, hsame counter le_rfl, allocationRound_found_iff.mpr ⟨hle, hround⟩⟩

/-- Torn records are never interpreted exactly if those that the lookup comes to list nothing. -/
theorem tornHonoured_iff (node : ℕ) (s : NtfsState) :
    TornHonoured node s ↔ TornListNothing (s.nodePool node).fs (s.nodePool node).inode s := by
  constructor
  · intro h a off t₀ b hcomes hread htorn hlists
    obtain ⟨i, t, e, hrun, hb⟩ := lookup_of_lists hcomes hread htorn hlists
    exact h.indx (.index i) _ _ hrun e b rfl hb htorn
  · intro h
    constructor
    · intro record size hlayout hsealed
      rw [wp_applyFixup hlayout, fixedUp, firstTorn_eq_none_iff.mpr hsealed]
      exact ⟨rfl, rfl, putBack_restores hlayout⟩
    · intro hfetch
      have hfail := wp_readMftRecord_torn hfetch
      refine ⟨fun index => ?_, fun name => ?_, fun offset size out => ?_⟩
      · rw [ntfsReaddir, wp_bind, wp_get, readdirAt, wp_bind]
        refine wp_mono (wp_ntfsDirLookup_torn _ hfail) fun r t hr => ?_
        rw [hr]
        exact (wp_pure ..).mpr rfl
      · rw [ntfsFinddir, wp_bind, wp_get, wp_bind]
        refine wp_mono (wp_ntfsDirLookup_torn _ hfail) fun r t hr => ?_
        rw [hr]
        exact (wp_pure ..).mpr rfl
      · rw [ntfsRead, wp_bind, wp_get, readAt, wp_bind]
        refine wp_mono hfail fun rc t hrc => ?_
        rw [if_pos hrc]
        exact (wp_pure ..).mpr rfl
    · intro q r t hrun e b he hb htorn
      subst he
      obtain ⟨a, off, t₀, hcomes, hread, hlists⟩ := found_indx hrun hb htorn
      exact h a off t₀ b hcomes hread htorn hlists

end Torn

/-! ## A torn record that lists an entry -/

/-- The small volume, with `INDX` records of one sector. -/
def tornFs : NtfsFs := { smallFs with indexRecordSize := 512 }

/-- The file record of its root directory, as it is on the drive: an index root at 56 without
entries, and an index allocation at 136 of one record, in cluster 30. -/
def dirRecord : Bytes := fun i =>
  if i < 4 then fileSignature.getD i 0
  else if i = 4 then 48
  else if i = 6 then 3
  else if i = 20 then 56
  else if i = 24 then 216
  else if i = 48 ∨ i = 510 ∨ i = 1022 then 1
  else if i = 56 then 0x90
  else if i = 60 then 80
  else if i = 76 then 24
  else if i = 96 then 16
  else if i = 100 then 32
  else if i = 124 then 2
  else if i = 136 then 0xA0
  else if i = 140 then 72
  else if i = 144 then 1
  else if i = 168 then 64
  else if i = 185 then 2
  else if 200 ≤ i ∧ i < 204 then [0x11, 1, 30, 0].getD (i - 200) 0
  else if 208 ≤ i ∧ i < 212 then 0xFF
  else 0

/-- Its `INDX` record, which lists a file `A` and does not end in the update sequence number. -/
def tornIndx : Bytes := fun i =>
  if i < 4 then indxSignature.getD i 0
  else if i = 4 then 40
  else if i = 6 then 2
  else if i = 24 then 24
  else if i = 28 then 128
  else if i = 40 then 1
  else if i = 48 then 7
  else if i = 56 then 88
  else if i = 58 then 68
  else if i = 128 ∨ i = 129 then 1
  else if i = 130 then 65
  else if i = 148 then 2
  else 0

/-- The mounted volume. -/
def tornState : NtfsState where
  blk := ⟨fun _ i =>
      if 10240 ≤ i ∧ i < 11264 then dirRecord (i - 10240)
      else if 15360 ≤ i ∧ i < 15872 then tornIndx (i - 15360) else 0,
    fun _ => false, 0, []⟩
  mftBuf := Bytes.zeros
  indxBuf := Bytes.zeros
  fsPoolUsed := 1
  nodePool := fun _ => rootNode tornFs
  nodePoolUsed := 1

lemma tornState_disk (dev : Drive) (i : ℕ) : tornState.blk.disk dev i =
    if 10240 ≤ i ∧ i < 11264 then dirRecord (i - 10240)
    else if 15360 ≤ i ∧ i < 15872 then tornIndx (i - 15360) else 0 := rfl

lemma tornFs_mftLayout : MftLayout tornFs 10 :=
  ⟨by decide, by decide, by decide, by decide, by decide⟩

lemma tornFs_ok : ClusterSizeOk tornFs := ⟨by decide, by decide, by decide⟩

/-- The lookup comes to that record. -/
lemma torn_lookupRoot : ∃ a t, lookupRoot tornFs 5 (.index (-1)) tornState = some (.inr a, t) ∧
    a.total = 512 ∧ a.recSize = 512 ∧ RunFile tornFs a.record a.ia 512 [⟨1, some 30⟩] ∧
    ∃ calls, t = { After tornState calls with mftBuf := t.mftBuf } := by
  have hrecord : ∀ j < tornFs.mftRecordSize, tornState.blk.disk tornFs.dev
      (directAddr tornFs (5 * tornFs.mftRecordSize + j)) = dirRecord j := by
    intro j hj
    have hj : j < 1024 := hj
    have haddr : directAddr tornFs (5 * tornFs.mftRecordSize + j) = 10240 + j := by
      simp only [directAddr, tornFs, smallFs]
      omega
    rw [haddr, tornState_disk, if_pos ⟨by omega, by omega⟩, Nat.add_sub_cancel_left]
  suffices hwp : wp (lookupRoot tornFs 5 (.index (-1))) (fun r t => ∃ a, r = .inr a ∧
      a.total = 512 ∧ a.recSize = 512 ∧ RunFile tornFs a.record a.ia 512 [⟨1, some 30⟩] ∧
      ∃ calls, t = { After tornState calls with mftBuf := t.mftBuf }) tornState by
    obtain ⟨_, t, hrun, a, rfl, h⟩ := hwp
    exact ⟨a, t, hrun, h⟩
  rw [wp_lookupRoot]
  refine wp_mono (wp_readMftRecord_stored tornFs_mftLayout (fun _ => rfl) (by decide)
    hrecord (by decide)
    ⟨by decide, by decide, by decide, by decide⟩ (by decide)) fun rc t hread => ?_
  obtain ⟨rfl, hhead, calls, ht⟩ := hread
  have hnum : ∀ off k, off + k ≤ 510 → Bytes.leNat t.mftBuf off k = Bytes.leNat dirRecord off k :=
    fun off k hk => Bytes.leNat_congr fun i hi => hhead _ (by omega)
  have hroot : Bytes.leNat t.mftBuf 20 2 = 56 := (hnum _ _ (by decide)).trans (by decide)
  have hused : Bytes.leNat t.mftBuf 24 4 = 216 := (hnum _ _ (by decide)).trans (by decide)
  rw [if_neg (by decide)]
  refine (wp_findAttr ..).mpr ⟨some 56, ?_, by decide, ?_⟩
  · rw [hroot, hused]
    apply Scans.leave
    rw [attrStep_congr hhead (by decide)]
    decide
  have hvalue : Bytes.leNat t.mftBuf (56 + 20) 2 = 24 := (hnum _ _ (by decide)).trans (by decide)
  rw [hvalue, wp_walkIndexEntries]
  refine ⟨by decide, Sum.inl 0, ?_, ?_⟩
  · rw [hnum (56 + 24 + 16) 4 (by decide), hnum (56 + 24 + 16 + 4) 4 (by decide),
      show Bytes.leNat dirRecord (56 + 24 + 16) 4 = 16 by decide,
      show Bytes.leNat dirRecord (56 + 24 + 16 + 4) 4 = 32 by decide]
    apply Scans.leave
    apply walkStep_of_stop
    rw [entryStep, hnum _ _ (by decide), if_pos (by decide), reads, if_pos (by decide),
      if_pos (by decide)]
  refine (wp_findAttr ..).mpr ⟨some 136, ?_, by decide, ?_⟩
  · rw [hroot, hused]
    refine @Scans.next _ _ _ _ 136 _ ?_ (.leave ?_)
    · rw [attrStep_congr hhead (by decide)]
      decide
    · rw [attrStep_congr hhead (by decide)]
      decide
  rw [hnum (136 + 8) 1 (by decide), if_neg (by decide)]
  refine ⟨by decide, _, rfl, ?_, rfl, ⟨?_, ?_, by decide, by decide, by decide⟩, calls, ht⟩
  · change u32 (Bytes.leNat t.mftBuf (136 + 48) 8) = 512
    rw [hnum _ _ (by decide)]
    decide
  · exact (by decide : 136 + 34 ≤ bufSize)
  · change RunsAt t.mftBuf (136 + Bytes.leNat t.mftBuf (136 + 32) 2) 0 _
    rw [hnum _ _ (by decide), show Bytes.leNat dirRecord (136 + 32) 2 = 64 by decide]
    refine @RunsAt.mapped _ 200 0 1 1 1 30 [] ?_ (by decide) (by decide) (by decide)
      ?_ (by decide) ?_
      (by decide) (.done (by decide) ?_)
    · rw [hhead _ (by decide)]
      decide
    · rw [hnum _ _ (by decide)]
      decide
    · rw [leInt, hhead _ (by decide), hnum _ _ (by decide)]
      decide
    · rw [hhead _ (by decide)]
      decide

/-- The record is read whole, and is torn. -/
lemma torn_indxRead {a : IndxRecords} {t : NtfsState} (hsize : a.recSize = 512)
    (hfile : RunFile tornFs a.record a.ia 512 [⟨1, some 30⟩])
    (ht : ∃ calls, t = { After tornState calls with mftBuf := t.mftBuf }) :
    ∃ b, IndxRead tornFs a 0 t b ∧ ∀ j < 512, b j = tornIndx j := by
  obtain ⟨calls, ht⟩ := ht
  have hblk : t.blk.disk = tornState.blk.disk := by rw [ht]; rfl
  have hfail : t.blk.NoFail := by
    rw [ht]
    exact fun _ => rfl
  obtain ⟨x, t', hrun, -, hx⟩ :=
    @wp_readNonresident tornFs tornFs_ok a.record a.ia 512 0 512 _ hfile
    (by decide) t.indxBuf t hfail
  rw [if_neg (by decide)] at hx
  have hbytes : ∀ j < 512, x.2 j = tornIndx j := by
    intro j hj
    rw [hx.2 j hj, hblk, Nat.zero_add, storedByte,
      if_pos (by simpa [tornFs, smallFs] using hj), runByte, tornState_disk]
    have haddr : clusterLba tornFs (Run.start ⟨1, some 30⟩ 0) (j / tornFs.clusterSize) * 512 +
        j % tornFs.clusterSize = 15360 + j := by
      simp only [clusterLba, Run.start, tornFs, smallFs, u32, Option.getD_some]
      omega
    rw [haddr, if_neg (by omega), if_pos ⟨by omega, by omega⟩, Nat.add_sub_cancel_left]
  refine ⟨x.2, ?_, hbytes⟩
  rw [IndxRead, hsize]
  refine wp_of_eq hrun ⟨rfl, ?_⟩
  rintro (hshort | hsig)
  · rw [hx.1] at hshort
    exact lt_irrefl _ hshort
  · rw [@Bytes.slice_congr _ tornIndx _ 0 _ fun i hi => hbytes _ (by omega)] at hsig
    exact hsig (by decide)

/-- It lists an entry. -/
lemma torn_listsEntry {b : Bytes}
    (hnum : ∀ off k, off + k ≤ 512 → Bytes.leNat b off k = Bytes.leNat tornIndx off k) :
    ListsEntry b := by
  have hlength : nameLength b (48 + 16) = 1 := by
    rw [nameLength, hnum _ _ (by decide)]
    decide
  have hname : nameAt b (48 + 16) = [65] := by
    rw [nameAt, hlength, asciiAt, asciiAt, hnum _ _ (by decide)]
    decide
  have hlisted : Listed b 48 := by
    rw [Listed, hname, hnum _ _ (by decide)]
    decide
  have hvisit : visit b 48 = some true := by
    rw [visit, hlength, hnum _ _ (by decide), decide_eq_true hlisted]
    decide
  refine @Lists.here _ _ _ _ 112 ?_
  rw [hnum 24 4 (by decide), hnum (24 + 4) 4 (by decide),
    show Bytes.leNat tornIndx 24 4 = 24 by decide,
    entryStep, hvisit, hnum (24 + 24 + 12) 4 (by decide), hnum (24 + 24 + 8) 2 (by decide),
    hnum (24 + 24 + 10) 2 (by decide)]
  decide

/-- The directory of that volume lists the file `A`, from a torn record. -/
theorem not_tornHonoured : ¬∀ node s, TornHonoured node s := by
  intro h
  obtain ⟨a, t, hroot, htotal, hsize, hfile, ht⟩ := torn_lookupRoot
  obtain ⟨b, hread, hb⟩ := torn_indxRead hsize hfile ht
  have hnum : ∀ off k, off + k ≤ 512 → Bytes.leNat b off k = Bytes.leNat tornIndx off k :=
    fun off k hk => Bytes.leNat_congr fun i hi => hb _ (by omega)
  have hlayout : FixupLayout b 512 := by
    refine ⟨by decide, by decide, ?_, ?_⟩
    · rw [hnum 6 2 (by decide)]
      decide
    · rw [hnum 4 2 (by decide)]
      decide
  have hend : sectorEnd b 0 ≠ usn b := by
    rw [sectorEnd, usn, hnum 4 2 (by decide), hnum _ 2 (by decide), hnum _ 2 (by decide)]
    decide
  have htorn : Torn b 512 := ⟨hlayout, fun hsealed => hend (hsealed 0 (by decide))⟩
  have hfixed : fixedUp b 512 = (b, false) := by
    rw [fixedUp, firstTorn_eq_some (n := 0) (by decide) hend fun _ hj =>
      absurd hj (Nat.not_lt_zero _)]
    exact congrArg (·, false) (putBack_zero b)
  have hcomes : ComesTo tornFs 5 tornState a 0 t := by
    refine ⟨t, _, 0, by decide, hroot, rfl, ?_⟩
    rw [hsize, htotal]
    decide
  have hlists : ListsEntry (fixedUp b 512).1 := by
    rw [hfixed]
    exact torn_listsEntry hnum
  obtain ⟨i, t', e, hrun, he⟩ := lookup_of_lists hcomes hread htorn hlists
  exact (h 0 tornState).indx (.index i) _ _ hrun e b rfl he htorn

end Ntfs

end CoolFrost

import CoolFrost.Fs.Ntfs.Records

/-!
# NTFS: the update sequence of a record

Before a record is written, the last two bytes of each of its sectors are moved to an array in its
header and replaced by the update sequence number, so that a record of which only some sectors were
written can be told from a whole one.  `wp_applyFixup` says what `apply_fixup` makes of a record
whose array has one entry per sector: it puts back the ends of the sectors before the first one that
is torn, and changes nothing else.
-/

namespace CoolFrost

open Program

namespace Ntfs

variable {σ : Type}

/-- The number in the last two bytes of sector `j` of a record. -/
def sectorEnd (b : Bytes) (j : ℕ) : ℕ := Bytes.leNat b (j * 512 + 510) 2

/-- The update sequence number of a record. -/
def usn (b : Bytes) : ℕ := Bytes.leNat b (Bytes.leNat b 4 2) 2

/-- The fixup array of a record of `size` bytes lies in its header and has one entry per sector. -/
structure FixupLayout (b : Bytes) (size : ℕ) : Prop where
  whole : size % 512 = 0
  le : size ≤ bufSize
  count : Bytes.leNat b 6 2 = size / 512 + 1
  inHeader : Bytes.leNat b 4 2 + 2 * (size / 512 + 1) ≤ 510

/-- Every sector of the record ends in the update sequence number. -/
def Sealed (b : Bytes) (size : ℕ) : Prop := ∀ j < size / 512, sectorEnd b j = usn b

instance (b : Bytes) (size : ℕ) : Decidable (Sealed b size) :=
  inferInstanceAs (Decidable (∀ j < size / 512, _))

/-- The first sector that does not end in the update sequence number. -/
def firstTorn (b : Bytes) (size : ℕ) : Option ℕ :=
  (List.range (size / 512)).find? fun j => sectorEnd b j ≠ usn b

/-- A record with the two bytes of its first `n` sectors put back from the array. -/
def putBack (b : Bytes) (n : ℕ) : Bytes := fun i =>
  if 510 ≤ i % 512 ∧ i / 512 < n then b (Bytes.leNat b 4 2 + 2 * (i / 512 + 1) + (i % 512 - 510))
  else b i

/-- What `apply_fixup` makes of a record. -/
def fixedUp (b : Bytes) (size : ℕ) : Bytes × Bool :=
  match firstTorn b size with
  | none => (putBack b (size / 512), true)
  | some n => (putBack b n, false)

section Congr

variable {b b' : Bytes} {size : ℕ}

lemma FixupLayout.congr (h : FixupLayout b size) (hpos : 512 ≤ size) (hb : ∀ j < size, b' j = b j) :
    FixupLayout b' size := by
  have hnum : ∀ off k, off + k ≤ 512 → Bytes.leNat b' off k = Bytes.leNat b off k :=
    fun off k hk => Bytes.leNat_congr fun i hi => hb _ (by omega)
  constructor
  · exact h.whole
  · exact h.le
  · rw [hnum 6 2 (by omega), h.count]
  · rw [hnum 4 2 (by omega)]
    exact h.inHeader

lemma Sealed.congr (h : Sealed b size) (hlayout : FixupLayout b size) (hpos : 512 ≤ size)
    (hb : ∀ j < size, b' j = b j) : Sealed b' size := by
  have hin := hlayout.inHeader
  have hnum : ∀ off k, off + k ≤ size → Bytes.leNat b' off k = Bytes.leNat b off k :=
    fun off k hk => Bytes.leNat_congr fun i hi => hb _ (by omega)
  intro j hj
  rw [usn, sectorEnd, hnum 4 2 (by omega), hnum _ 2 (by omega), hnum _ 2 (by omega)]
  exact h j hj

end Congr

lemma firstTorn_eq_none_iff {b : Bytes} {size : ℕ} : firstTorn b size = none ↔ Sealed b size := by
  rw [firstTorn, List.find?_eq_none]
  constructor
  · intro h j hj
    have hj := h j (List.mem_range.mpr hj)
    simpa using hj
  · intro h j hj
    simpa using h j (List.mem_range.mp hj)

lemma firstTorn_eq_some {b : Bytes} {size n : ℕ} (hn : n < size / 512)
    (htorn : sectorEnd b n ≠ usn b)
    (hbefore : ∀ j < n, sectorEnd b j = usn b) : firstTorn b size = some n := by
  rw [firstTorn, List.find?_range_eq_some]
  exact ⟨by simpa using htorn, List.mem_range.mpr hn, fun j hj => by simpa using hbefore j hj⟩

lemma fixedUp_snd (b : Bytes) (size : ℕ) : (fixedUp b size).2 = true ↔ Sealed b size := by
  rw [fixedUp, ← firstTorn_eq_none_iff]
  cases firstTorn b size with
  | none => exact iff_of_true rfl rfl
  | some n => exact iff_of_false Bool.false_ne_true (Option.some_ne_none n)

lemma putBack_zero (b : Bytes) : putBack b 0 = b := by
  funext i
  exact if_neg fun h => Nat.not_lt_zero _ h.2

/-- Only the ends of sectors are changed. -/
lemma putBack_of_lt {b : Bytes} {n i : ℕ} (hi : i % 512 < 510) : putBack b n i = b i :=
  if_neg fun h => Nat.not_lt.mpr h.1 hi

/-- Putting back the end of one more sector. -/
lemma put16_putBack (b : Bytes) (j : ℕ) :
    Bytes.put16 (putBack b j) (j * 512 + 510) (Bytes.leNat b (Bytes.leNat b 4 2 + 2 * (j + 1)) 2) =
      putBack b (j + 1) := by
  funext i
  by_cases hi : j * 512 + 510 ≤ i ∧ i < j * 512 + 510 + 2
  · rw [Bytes.put16, Bytes.blit_of_mem hi, putBack]
    have hdiv : i / 512 = j := by omega
    rw [if_pos ⟨by omega, by omega⟩, hdiv, show i % 512 - 510 = i - (j * 512 + 510) by omega]
    generalize Bytes.leNat b 4 2 + 2 * (j + 1) = off
    obtain h | h : i - (j * 512 + 510) = 0 ∨ i - (j * 512 + 510) = 1 := by omega
    all_goals
      rw [h]
      apply UInt8.toNat_inj.mp
      have h0 := (b off).toNat_lt
      have h1 := (b (off + 1)).toNat_lt
      simp only [Bytes.ofNat, Bytes.leNat, UInt8.toNat_ofNat', Nat.pow_zero,
        Nat.pow_one, Nat.div_one, Nat.add_zero, Nat.mul_zero]
      omega
  · rw [Bytes.put16, Bytes.blit_of_not_mem (by omega), putBack, putBack]
    refine if_congr ?_ rfl rfl
    constructor
    · exact fun h => ⟨h.1, by omega⟩
    · exact fun h => ⟨h.1, by omega⟩

/-- The header of a record is left alone. -/
lemma leNat_putBack {b : Bytes} {n off k : ℕ} (h : off + k ≤ 510) :
    Bytes.leNat (putBack b n) off k = Bytes.leNat b off k := by
  apply Bytes.leNat_congr
  intro i hi
  exact putBack_of_lt (by omega)

/-- The ends of the sectors that have not been put back yet are those of the record. -/
lemma sectorEnd_putBack (b : Bytes) {n j : ℕ} (h : n ≤ j) :
    sectorEnd (putBack b n) j = sectorEnd b j := by
  apply Bytes.leNat_congr
  intro i hi
  exact if_neg fun hlt => absurd hlt.2 (by omega)

/-- What `apply_fixup` does, for an array in the header with one entry per sector. -/
lemma wp_applyFixup {b : Bytes} {size : ℕ} (h : FixupLayout b size) (Q : Bytes × Bool → σ → Prop)
    (s : σ) :
    wp (applyFixup b (Bytes.leNat b 4 2) (Bytes.leNat b 6 2) size) Q s ↔ Q (fixedUp b size) s := by
  have hle := h.le
  have hin := h.inHeader
  have hcount := h.count
  suffices hrun : wp (applyFixup b (Bytes.leNat b 4 2) (Bytes.leNat b 6 2) size)
      (fun r s' => r = fixedUp b size ∧ s' = s) s by
    obtain ⟨r, s', hrun, rfl, rfl⟩ := hrun
    exact wp_iff_of_eq hrun
  unfold bufSize at hle
  rw [applyFixup]
  simp only [wp_bind, wp_load, bufSize]
  refine ⟨by omega, wp_ite_intro (fun hlt => ?_) fun _ => ?_⟩
  · have hzero : size / 512 = 0 := by omega
    rw [wp_pure, fixedUp, firstTorn_eq_none_iff.mpr fun j hj => absurd hj (by omega), hzero,
      putBack_zero]
    exact ⟨rfl, rfl⟩
  -- at the head of the loop the first `i - 1` sectors have been put back
  refine wp_iter
    (fun (v : ℕ × Bytes) s' => 1 ≤ v.1 ∧ v.1 ≤ size / 512 + 1 ∧ v.2 = putBack b (v.1 - 1) ∧
      (∀ j < v.1 - 1, sectorEnd b j = usn b) ∧ s' = s)
    (fun v _ => size / 512 + 1 - v.1) ?_
    ⟨le_rfl, by omega, (putBack_zero b).symm, fun j hj => absurd hj (Nat.not_lt_zero j), rfl⟩ ?_
  · rintro ⟨i, record⟩ s' ⟨hpos, hi, hrecord, hbefore, rfl⟩
    obtain ⟨j, rfl⟩ : ∃ j, i = j + 1 := ⟨i - 1, by omega⟩
    simp only [Nat.add_sub_cancel] at hrecord hbefore hi ⊢
    subst hrecord
    have hend : (j + 1) * 512 - 2 = j * 512 + 510 := by omega
    have harray : Bytes.leNat (putBack b j) (Bytes.leNat b 4 2 + 2 * (j + 1)) 2 =
        Bytes.leNat b (Bytes.leNat b 4 2 + 2 * (j + 1)) 2 ∨ size / 512 < j + 1 := by
      by_cases hlast : size / 512 < j + 1
      · exact .inr hlast
      · exact .inl (leNat_putBack (by omega))
    refine wp_ite_intro (fun hlt => ?_) fun hge => ?_
    · simp only [wp_bind, wp_load, hend]
      refine ⟨by omega, ?_⟩
      rw [show Bytes.leNat (putBack b j) (j * 512 + 510) 2 = sectorEnd b j from
        sectorEnd_putBack b le_rfl]
      refine wp_ite_intro (fun htorn => ?_) fun hsame => ?_
      · rw [wp_pure, fixedUp, firstTorn_eq_some (by omega) htorn hbefore]
        exact ⟨rfl, rfl⟩
      · rw [wp_bind, wp_load, wp_pure, harray.resolve_right (by omega), put16_putBack]
        refine ⟨by omega, ⟨by omega, by omega, rfl, fun k hk => ?_, rfl⟩, by omega⟩
        rcases Nat.lt_succ_iff_lt_or_eq.mp hk with hk | rfl
        · exact hbefore k hk
        · exact not_not.mp hsame
    · have hall : j = size / 512 := by omega
      rw [wp_pure, fixedUp, firstTorn_eq_none_iff.mpr fun k hk => hbefore k (by omega), hall]
      exact ⟨rfl, rfl⟩
  · unfold loopFuel
    omega

end Ntfs

end CoolFrost

import CoolFrost.Fs.Ntfs.Fixups
import CoolFrost.Fs.Ntfs.RunLists
import CoolFrost.Fs.Ntfs.Scans

/-!
# NTFS: what the parsers need of a record

The parsers take offsets, lengths and counts from a record and follow them without asking whether
they are inside of the buffer.  `find_attr`, `walk_index_entries`, `apply_fixup` and the loop of
`read_nonresident` over the runs each go from one record to the next: they return exactly if this
walk comes to its end inside of the buffer.  What becomes of a run depends on the transfers, so that
`read_nonresident` is asked to return from every state of the drives; the walk that it takes when
all of them succeed is the longest one.
-/

namespace CoolFrost

open Program

namespace Ntfs

variable {σ : Type}

/-! ## Attributes -/

/-- The walk of `find_attr` from attribute to attribute. -/
def attrWalk (b : Bytes) (type : ℕ) : Walk ℕ where
  inside off := off + 16 ≤ Bytes.leNat b 24 4 →
    off + 4 ≤ bufSize ∧ (Bytes.leNat b off 4 ≠ attrEnd → off + 8 ≤ bufSize)
  stop off := Bytes.leNat b 24 4 < off + 16 ∨ Bytes.leNat b off 4 = attrEnd ∨
    Bytes.leNat b (off + 4) 4 = 0 ∨ Bytes.leNat b off 4 = type
  next off := u32 (off + Bytes.leNat b (off + 4) 4)

/-- What `find_attr` returns where it stops. -/
def attrResult (b : Bytes) (off : ℕ) : Option ℕ :=
  if Bytes.leNat b 24 4 < off + 16 ∨ Bytes.leNat b off 4 = attrEnd ∨
    Bytes.leNat b (off + 4) 4 = 0 then none
  else some off

lemma attrWalk_steps (b : Bytes) (type : ℕ) :
    (attrWalk b type).Steps (attrStep b (Bytes.leNat b 24 4) type) (attrResult b) := by
  constructor
  all_goals
    intro off hin
    simp only [attrWalk, attrStep, attrResult, reads] at *
    grind

/-- `find_attr` returns exactly if its walk ends. -/
lemma halts_findAttr_iff (b : Bytes) (type : ℕ) (s : σ) :
    Halts (findAttr b type) s ↔ (attrWalk b type).Ends (Bytes.leNat b 20 2) := by
  rw [Halts, wp_findAttr, ← (attrWalk_steps b type).exists_scans_iff]
  simp only [and_true]

/-! ## Index entries -/

/-- The name of the entry at `ie`, which has one that is listed. -/
def NameInside (b : Bytes) (ie : ℕ) : Prop :=
  ie + 16 + 66 ≤ bufSize ∧ (Bytes.leNat b (ie + 16 + 65) 1 ≠ 2 →
    nameLength b (ie + 16) ≠ 0 → ie + 16 + 66 + 2 * nameLength b (ie + 16) ≤ bufSize)

/-- The entry at `ie` is the one that is searched for, `counter` entries having been listed
before. -/
def Sought (b : Bytes) (ie counter : ℕ) : Query → Prop
  | .name n => Listed b ie ∧ ntfsStrcasecmp (nameAt b (ie + 16)) n = 0
  | .index i => Listed b ie ∧ (counter : ℤ) = i

/-- The number of listed entries after the one at `ie`. -/
def listedAfter (b : Bytes) (ie counter : ℕ) : Query → ℕ
  | .name _ => counter
  | .index _ => if Listed b ie then counter + 1 else counter

lemma visit_eq (b : Bytes) (ie : ℕ) :
    (NameInside b ie → visit b ie = some (decide (Listed b ie))) ∧
    (¬NameInside b ie → visit b ie = none) := by
  have hnil : nameLength b (ie + 16) = 0 → ¬Listed b ie := fun h hl => hl.2 (.inl (nameAt_eq_nil h))
  have hdos : Bytes.leNat b (ie + 16 + 65) 1 = 2 → ¬Listed b ie := fun h hl => hl.1 h
  simp only [NameInside, visit, reads]
  grind

instance (b : Bytes) (ie counter : ℕ) : ∀ q, Decidable (Sought b ie counter q)
  | .name _ => inferInstanceAs (Decidable (_ ∧ _))
  | .index _ => inferInstanceAs (Decidable (_ ∧ _))

lemma visitResult_eq (b : Bytes) (ie counter : ℕ) (q : Query) :
    visitResult b ie (decide (Listed b ie)) counter q =
      if Sought b ie counter q then .inr (Bytes.leNat b ie 8 % 2 ^ 48, ie + 16)
      else .inl (listedAfter b ie counter q) := by
  cases q with
  | name n =>
    simp only [visitResult, Sought, listedAfter, decide_eq_true_eq]
    rfl
  | index i =>
    by_cases h : Listed b ie
    · simp only [visitResult, Sought, listedAfter, h, decide_true, if_true, true_and]
    · simp only [visitResult, Sought, listedAfter, h, decide_false, if_false, false_and,
        Bool.false_eq_true]

/-- No entry is at `off`: it is past the last one. -/
def PastEntries (b : Bytes) (base total off : ℕ) : Prop :=
  total < off + 16 ∨ Bytes.leNat b (base + off + 12) 4 / 2 % 2 = 1 ∨
    Bytes.leNat b (base + off + 8) 2 = 0

instance (b : Bytes) (base total off : ℕ) : Decidable (PastEntries b base total off) :=
  inferInstanceAs (Decidable (_ ∨ _))

/-- The entry at `ie` has a file name attribute. -/
def HasName (b : Bytes) (ie : ℕ) : Prop := 66 ≤ Bytes.leNat b (ie + 10) 2

instance (b : Bytes) (ie : ℕ) : Decidable (HasName b ie) := inferInstanceAs (Decidable (_ ≤ _))

/-- What is looked at of the entry at `off` is inside of the buffer. -/
def EntryInside (b : Bytes) (base total off : ℕ) : Prop :=
  off + 16 ≤ total → base + off + 16 ≤ bufSize ∧
    (¬PastEntries b base total off → HasName b (base + off) → NameInside b (base + off))

/-- The walk of `walk_index_entries` from entry to entry, with the number of entries listed so
far. -/
def entryWalk (b : Bytes) (base total : ℕ) (q : Query) : Walk (ℕ × ℕ) where
  inside v := EntryInside b base total v.1
  stop v := PastEntries b base total v.1 ∨ HasName b (base + v.1) ∧ Sought b (base + v.1) v.2 q
  next v := (u32 (v.1 + Bytes.leNat b (base + v.1 + 8) 2),
    if HasName b (base + v.1) then listedAfter b (base + v.1) v.2 q else v.2)

/-- What `walk_index_entries` returns where it stops. -/
def entryResult (b : Bytes) (base total : ℕ) (v : ℕ × ℕ) : ℕ ⊕ ℕ × ℕ :=
  if PastEntries b base total v.1 then .inl v.2
  else .inr (Bytes.leNat b (base + v.1) 8 % 2 ^ 48, base + v.1 + 16)

lemma entryStep_outside {b : Bytes} {base total off : ℕ} (h : ¬EntryInside b base total off) :
    entryStep b base total off = none := by
  have hvisit := (visit_eq b (base + off)).2
  simp only [EntryInside, PastEntries, HasName, entryStep, reads] at *
  grind

lemma entryStep_past {b : Bytes} {base total off : ℕ} (h : EntryInside b base total off)
    (hpast : PastEntries b base total off) : entryStep b base total off = some none := by
  simp only [EntryInside, PastEntries, entryStep, reads] at *
  grind

lemma entryStep_entry {b : Bytes} {base total off : ℕ} (h : EntryInside b base total off)
    (hpast : ¬PastEntries b base total off) :
    entryStep b base total off =
      some (some (decide (HasName b (base + off) ∧ Listed b (base + off)),
      u32 (off + Bytes.leNat b (base + off + 8) 2))) := by
  obtain ⟨hin, hname⟩ := h (not_lt.mp fun hlt => hpast (.inl hlt))
  have hvisit := fun hn => (visit_eq b (base + off)).1 (hname hpast hn)
  simp only [PastEntries, not_or, not_lt] at hpast
  obtain ⟨htotal, hlast, hlen⟩ := hpast
  simp only [entryStep, reads, if_pos htotal, if_neg hlast, if_neg hlen]
  rw [if_pos (by omega), if_pos (by omega), if_pos (by omega)]
  by_cases hn : HasName b (base + off)
  · rw [if_pos (show 66 ≤ _ from hn), hvisit hn, Option.map_some]
    simp only [hn, true_and]
  · rw [if_neg (show ¬66 ≤ _ from hn)]
    simp only [hn, false_and, decide_false]

lemma entryWalk_steps (b : Bytes) (base total : ℕ) (q : Query) :
    (entryWalk b base total q).Steps (walkStep b base total q) (entryResult b base total) := by
  constructor
  · rintro ⟨off, counter⟩ hout
    have hstep := entryStep_outside hout
    rw [walkStep, hstep, Option.map_none]
  · rintro ⟨off, counter⟩ hin hstop
    by_cases hpast : PastEntries b base total off
    · have hstep := entryStep_past hin hpast
      rw [walkStep, hstep, Option.map_some, entryResult, if_pos hpast]
    · have hstep := entryStep_entry hin hpast
      obtain ⟨hname, hsought⟩ := hstop.resolve_left hpast
      rw [walkStep, hstep, Option.map_some, entryResult, if_neg hpast]
      simp only [hname, true_and, visitResult_eq, if_pos hsought]
  · rintro ⟨off, counter⟩ hin hgo
    obtain ⟨hpast, hfound⟩ := not_or.mp hgo
    have hstep := entryStep_entry hin hpast
    rw [walkStep, hstep, Option.map_some]
    by_cases hname : HasName b (base + off)
    · have hsought : ¬Sought b (base + off) counter q := fun h => hfound ⟨hname, h⟩
      simp only [hname, true_and, visitResult_eq, if_neg hsought, entryWalk, if_true]
    · simp only [hname, false_and, decide_false, visitResult_false, entryWalk, if_false]

/-- `walk_index_entries` returns exactly if its walk ends. -/
lemma halts_walkIndexEntries_iff (b : Bytes) (base counter : ℕ) (q : Query) (s : σ) :
    Halts (walkIndexEntries b base counter q) s ↔ base + 8 ≤ bufSize ∧
      (entryWalk b base (Bytes.leNat b (base + 4) 4) q).Ends (Bytes.leNat b base 4, counter) := by
  rw [Halts, wp_walkIndexEntries, ← (entryWalk_steps b base _ q).exists_scans_iff]
  simp only [and_true]

/-! ## The update sequence -/

/-- The walk of `apply_fixup` from sector to sector, with the record as it has become. -/
def fixupWalk (usn fixupOffset fixupCount size : ℕ) : Walk (ℕ × Bytes) where
  inside v := v.1 < fixupCount ∧ v.1 ≤ size / 512 → v.1 * 512 - 2 + 2 ≤ bufSize ∧
    (Bytes.leNat v.2 (v.1 * 512 - 2) 2 = usn → fixupOffset + 2 * v.1 + 2 ≤ bufSize)
  stop v := ¬(v.1 < fixupCount ∧ v.1 ≤ size / 512) ∨ Bytes.leNat v.2 (v.1 * 512 - 2) 2 ≠ usn
  next v := (v.1 + 1,
    Bytes.put16 v.2 (v.1 * 512 - 2) (Bytes.leNat v.2 (fixupOffset + 2 * v.1) 2))

/-- `apply_fixup` returns exactly if its walk ends. -/
lemma wp_applyFixup_iff (record : Bytes) (fixupOffset fixupCount size : ℕ)
    (Q : Bytes × Bool → σ → Prop) (s : σ) :
    wp (applyFixup record fixupOffset fixupCount size) Q s ↔ fixupOffset + 2 ≤ bufSize ∧
      if fixupCount < 2 then Q (record, true) s
      else ∃ v, (fixupWalk (Bytes.leNat record fixupOffset 2) fixupOffset fixupCount size).EndsAt
        (1, record) v ∧ Q (v.2, decide ¬(v.1 < fixupCount ∧ v.1 ≤ size / 512)) s := by
  rw [applyFixup]
  simp only [wp_bind, wp_load, wp_ite, wp_pure]
  refine and_congr_right fun _ => ?_
  split
  · exact Iff.rfl
  refine Walk.Rounds.wp_iter_iff ?_ (fun v => 9 - v.1) ?_ (by unfold loopFuel; omega) Q s
  · rintro ⟨i, record⟩ Q s
    simp only [wp_ite, wp_bind, wp_load, wp_pure, fixupWalk]
    by_cases hgo : i < fixupCount ∧ i ≤ size / 512
    · rw [if_pos hgo]
      grind
    · rw [if_neg hgo]
      grind
  · intro v hin hgo
    obtain ⟨hmore, -⟩ := not_or.mp hgo
    have hle := (hin (not_not.mp hmore)).1
    unfold bufSize at hle
    refine .inr ?_
    change 9 - (v.1 + 1) < 9 - v.1
    omega

/-- The sectors that have not been walked over are those of the record. -/
lemma fixupWalk_iterate (usn fixupOffset fixupCount size : ℕ) (b : Bytes) (k : ℕ) :
    ∃ record, (fixupWalk usn fixupOffset fixupCount size).next^[k] (1, b) = (k + 1, record) ∧
      ∀ j, k ≤ j → sectorEnd record j = sectorEnd b j := by
  induction k with
  | zero => exact ⟨b, rfl, fun _ _ => rfl⟩
  | succ k ih =>
    obtain ⟨record, hk, hend⟩ := ih
    rw [Function.iterate_succ_apply', hk]
    refine ⟨_, rfl, fun j hj => ?_⟩
    rw [← hend j (by omega)]
    apply Bytes.leNat_congr
    intro i hi
    exact Bytes.blit_of_not_mem (by omega)

/-- The ends of the sectors that are compared, and the places of the array that are put back, are
inside of the buffer. -/
def FixupInside (b : Bytes) (fixupOffset fixupCount size : ℕ) : Prop :=
  fixupOffset + 2 ≤ bufSize ∧ ∀ j, j + 1 < fixupCount → j < size / 512 →
    (∀ k < j, sectorEnd b k = Bytes.leNat b fixupOffset 2) →
    j * 512 + 512 ≤ bufSize ∧
      (sectorEnd b j = Bytes.leNat b fixupOffset 2 → fixupOffset + 2 * (j + 1) + 2 ≤ bufSize)

/-- `apply_fixup` returns exactly if what it looks at is inside of the buffer. -/
lemma halts_applyFixup_iff (b : Bytes) (fixupOffset fixupCount size : ℕ) (s : σ) :
    Halts (applyFixup b fixupOffset fixupCount size) s ↔
    FixupInside b fixupOffset fixupCount size := by
  rw [Halts, wp_applyFixup_iff, FixupInside]
  refine and_congr_right fun _ => ?_
  by_cases hfew : fixupCount < 2
  · rw [if_pos hfew]
    exact iff_of_true trivial fun j hj => absurd hj (by omega)
  rw [if_neg hfew]
  set usn := Bytes.leNat b fixupOffset 2
  set w := fixupWalk usn fixupOffset fixupCount size with hw
  have hstop : ∀ k, w.stop (w.next^[k] (1, b)) ↔
      ¬(k + 1 < fixupCount ∧ k < size / 512) ∨ sectorEnd b k ≠ usn := by
    intro k
    obtain ⟨record, hk, hend⟩ := fixupWalk_iterate usn fixupOffset fixupCount size b k
    rw [hk, ← hend k le_rfl]
    change ¬(k + 1 < fixupCount ∧ k + 1 ≤ size / 512) ∨
      Bytes.leNat record ((k + 1) * 512 - 2) 2 ≠ usn ↔ _
    rw [show (k + 1) * 512 - 2 = k * 512 + 510 by omega, sectorEnd, Nat.succ_le_iff]
  have hinside : ∀ k, w.inside (w.next^[k] (1, b)) ↔ (k + 1 < fixupCount ∧ k < size / 512 →
      k * 512 + 512 ≤ bufSize ∧
      (sectorEnd b k = usn → fixupOffset + 2 * (k + 1) + 2 ≤ bufSize)) := by
    intro k
    obtain ⟨record, hk, hend⟩ := fixupWalk_iterate usn fixupOffset fixupCount size b k
    rw [hk, ← hend k le_rfl]
    change (k + 1 < fixupCount ∧ k + 1 ≤ size / 512 → (k + 1) * 512 - 2 + 2 ≤ bufSize ∧
      (Bytes.leNat record ((k + 1) * 512 - 2) 2 = usn → _)) ↔ _
    rw [show (k + 1) * 512 - 2 = k * 512 + 510 by omega, sectorEnd, Nat.succ_le_iff]
  have hends := Walk.ends_iff_forall (w := w) (b := (1, b))
    ⟨fixupCount, (hstop fixupCount).mpr (.inl fun h => absurd h.1 (by omega))⟩
  simp only [and_true]
  rw [← Walk.ends_iff_exists_endsAt, hends]
  simp only [hstop, hinside]
  constructor
  · intro h j hcount hsize hsame
    refine h j (fun k hk => ?_) ⟨hcount, hsize⟩
    rintro (hout | hne)
    · exact hout ⟨by omega, by omega⟩
    · exact hne (hsame k hk)
  · intro h j hgo hj
    exact h j hj.1 hj.2 fun k hk => not_not.mp fun hne => hgo k hk (.inr hne)

/-! ## Runs -/

/-- The size of the length of the run at `pos`. -/
def lenSize (b : Bytes) (pos : ℕ) : ℕ := Bytes.leNat b pos 1 % 16
/-- The size of the offset of the run at `pos`. -/
def offSize (b : Bytes) (pos : ℕ) : ℕ := Bytes.leNat b pos 1 / 16

/-- There is a run at `pos`, and not the end of the list or a field that is too long. -/
def IsRun (b : Bytes) (pos : ℕ) : Prop :=
  Bytes.leNat b pos 1 ≠ 0 ∧ 1 ≤ lenSize b pos ∧ lenSize b pos ≤ 4 ∧ offSize b pos ≤ 4

instance (b : Bytes) (pos : ℕ) : Decidable (IsRun b pos) := inferInstanceAs (Decidable (_ ∧ _))

/-- The bytes that the run at `pos` takes. -/
def runBytes (b : Bytes) (pos : ℕ) : ℕ := 1 + lenSize b pos + offSize b pos

/-- The number of clusters of the run at `pos`. -/
def runLength (b : Bytes) (pos : ℕ) : ℕ := Bytes.leNat b (pos + 1) (lenSize b pos)

/-- The signed offset of the run at `pos`. -/
def runOffset (b : Bytes) (pos : ℕ) : ℤ :=
  if 0 < offSize b pos ∧ 128 ≤ (b (pos + lenSize b pos + offSize b pos)).toNat then
    (Bytes.leNat b (pos + 1 + lenSize b pos) (offSize b pos) : ℤ) - 256 ^ offSize b pos
  else Bytes.leNat b (pos + 1 + lenSize b pos) (offSize b pos)

/-- The bytes at `pos` of a run list that are looked at are inside of the buffer. -/
def RunInside (b : Bytes) (pos : ℕ) : Prop :=
  pos + 1 ≤ bufSize ∧ (IsRun b pos → pos + runBytes b pos ≤ bufSize)

/-- What `parse_run` returns, which it does exactly if what it looks at is inside of the buffer. -/
lemma wp_parseRun_iff (b : Bytes) (pos : ℕ) (Q : Option (ℕ × ℕ × ℤ) → σ → Prop) (s : σ) :
    wp (parseRun b pos) Q s ↔ RunInside b pos ∧
      Q (if IsRun b pos then some (runBytes b pos, runLength b pos, runOffset b pos)
      else none) s := by
  have hrun : IsRun b pos ↔ ¬Bytes.leNat b pos 1 = 0 ∧
      ¬(Bytes.leNat b pos 1 % 16 = 0 ∨ 4 < Bytes.leNat b pos 1 % 16) ∧
      ¬4 < Bytes.leNat b pos 1 / 16 := by
    unfold IsRun lenSize offSize
    omega
  simp only [parseRun, wp_bind, wp_load, wp_ite, wp_pure, RunInside, and_assoc]
  refine and_congr_right fun _ => ?_
  by_cases h : IsRun b pos
  · obtain ⟨hzero, hlen, hoff⟩ := hrun.mp h
    rw [if_neg hzero, if_neg hlen, if_neg hoff, if_pos h, forall_prop_of_true h, ← and_assoc]
    refine and_congr ?_ Iff.rfl
    unfold runBytes lenSize offSize
    omega
  · rw [if_neg h, and_iff_right fun hr => absurd hr h]
    rw [hrun, not_and_or, not_and_or, not_not, not_not, not_not] at h
    rcases h with hzero | hlen | hoff
    · rw [if_pos hzero]
    · rw [if_pos hlen, ite_self]
    · rw [if_pos hoff, ite_self, ite_self]

/-- A round of the loop of `read_nonresident` over the runs. -/
def runRound (fs : NtfsFs) (record : Bytes) (offset size : ℕ) (v : RunLoop) :
    Program NtfsState (RunLoop ⊕ ℤ × Bytes) := do
  if v.bytesRead < size then
    match ← parseRun record v.runs with
    | none => return .inr (int32 v.bytesRead, v.out)
    | some (consumed, runLen, runOff) =>
      let lcn := addInt32 v.prevLcn runOff
      let runEnd := u32 (v.vcnPos + u32 (runLen * fs.clusterSize))
      let readEnd := u32 (offset + size)
      if offset < runEnd ∧ v.vcnPos < readEnd then
        let copyStart := max offset v.vcnPos
        let copyEnd := min readEnd runEnd
        let (ok, c) ← copyRun fs lcn
          ⟨copyStart - v.vcnPos, u32sub copyEnd copyStart, v.bytesRead, v.out⟩
        if ok then return .inl ⟨v.runs + consumed, c.bytesRead, lcn, runEnd, c.out⟩
        else return .inr (-1, c.out)
      else return .inl ⟨v.runs + consumed, v.bytesRead, lcn, runEnd, v.out⟩
  else return .inr (int32 v.bytesRead, v.out)

lemma readNonresident_eq (fs : NtfsFs) (record : Bytes) (attr offset size : ℕ) (out : Bytes) :
    readNonresident fs record attr offset size out = (do
      let dataRunsOffset ← load bufSize record (attr + 32) 2
      iter (runRound fs record offset size) loopFuel ⟨attr + dataRunsOffset, 0, 0, 0, out⟩) := rfl

/-- The place of the loop of `read_nonresident` in a run list, and how much it has copied. -/
structure ListPos where
  runs : ℕ
  bytesRead : ℕ
  vcnPos : ℕ

/-- Where the loop of `read_nonresident` is in the run list. -/
def RunLoop.listPos (v : RunLoop) : ListPos := ⟨v.runs, v.bytesRead, v.vcnPos⟩

/-- Where the run at a place of a run list ends, in 32 bits. -/
def ListPos.runEnd (fs : NtfsFs) (b : Bytes) (p : ListPos) : ℕ :=
  u32 (p.vcnPos + u32 (runLength b p.runs * fs.clusterSize))

/-- What has been copied after the run at a place, if no transfer fails. -/
def ListPos.read (fs : NtfsFs) (b : Bytes) (offset size : ℕ) (p : ListPos) : ℕ :=
  if offset < p.runEnd fs b ∧ p.vcnPos < u32 (offset + size) then
    u32 (p.bytesRead + u32sub (min (u32 (offset + size)) (p.runEnd fs b)) (max offset p.vcnPos))
  else p.bytesRead

/-- The walk of `read_nonresident` from run to run, if no transfer fails. -/
def runWalk (fs : NtfsFs) (b : Bytes) (offset size : ℕ) : Walk ListPos where
  inside p := p.bytesRead < size → RunInside b p.runs
  stop p := size ≤ p.bytesRead ∨ ¬IsRun b p.runs
  next p := ⟨p.runs + runBytes b p.runs, p.read fs b offset size, p.runEnd fs b⟩

/-- A cluster size of 0 means that no run has any bytes. -/
structure RunLoop.Sound (fs : NtfsFs) (v : RunLoop) : Prop where
  read_lt : v.bytesRead < 2 ^ 32
  empty : fs.clusterSize = 0 → v.vcnPos = 0

/-- The copy of a run returns, and unless a transfer fails it copies all bytes. -/
lemma wp_copyRun_returns {fs : NtfsFs} (hpos : 0 < fs.clusterSize) (lcn : ℕ) {v : CopyLoop}
    (hread : v.bytesRead < 2 ^ 32) (hrem : v.remaining < 2 ^ 32) (s : NtfsState) :
    wp (copyRun fs lcn v) (fun r t =>
      (r.1 = true → r.2.bytesRead = u32 (v.bytesRead + v.remaining)) ∧
      (s.blk.NoFail → r.1 = true ∧ t.blk.NoFail)) s := by
  refine wp_iter (fun w t => u32 (w.bytesRead + w.remaining) = u32 (v.bytesRead + v.remaining) ∧
    w.bytesRead < 2 ^ 32 ∧ w.remaining ≤ v.remaining ∧ (s.blk.NoFail → t.blk.NoFail))
    (fun w _ => w.remaining) ?_ ⟨rfl, hread, le_rfl, id⟩ (show v.remaining < 2 ^ 32 by omega)
  rintro w t ⟨hsum, hlt, hle, hfail⟩
  refine wp_ite_intro (fun hgo => ?_) fun hdone => ?_
  · have hwithin := Nat.mod_lt w.runByteOff hpos
    have hchunk : min (fs.clusterSize - w.runByteOff % fs.clusterSize) w.remaining ≤ w.remaining :=
      min_le_right _ _
    have hchunk_pos : 0 < min (fs.clusterSize - w.runByteOff % fs.clusterSize) w.remaining :=
      lt_min (by omega) hgo
    simp only [wp_bind, io, wp_zoom, blkRead, wp_get, wp_modify]
    refine wp_ite_intro (fun hf => ?_) fun hf => ?_
    · simp only [wp_pure]
      refine ⟨fun h => absurd h Bool.false_ne_true, fun hs => ?_⟩
      rw [hfail hs] at hf
      exact absurd hf Bool.false_ne_true
    · simp only [wp_pure]
      refine ⟨⟨?_, Nat.mod_lt _ (by decide), by dsimp only; omega, hfail⟩, by dsimp only; omega⟩
      dsimp only
      rw [← hsum]
      unfold u32
      omega
  · rw [wp_pure]
    refine ⟨fun _ => ?_, fun hs => ⟨rfl, hfail hs⟩⟩
    rw [← hsum, show w.remaining = 0 by omega, Nat.add_zero]
    exact (Nat.mod_eq_of_lt hlt).symm

/-- A round that goes on comes to the next run; it does go on if no transfer fails. -/
lemma wp_runRound_next {fs : NtfsFs} {record : Bytes} {offset size : ℕ} {v : RunLoop}
    (hv : v.Sound fs) (hin : (runWalk fs record offset size).inside v.listPos)
    (hgo : ¬(runWalk fs record offset size).stop v.listPos) (s : NtfsState) :
    wp (runRound fs record offset size v) (fun r t =>
      (∀ v', r = .inl v' → v'.Sound fs ∧
        v'.listPos = (runWalk fs record offset size).next v.listPos) ∧
      (s.blk.NoFail → (∃ v', r = .inl v') ∧ t.blk.NoFail)) s := by
  obtain ⟨hread, hrun⟩ := not_or.mp hgo
  have hread : v.bytesRead < size := not_le.mp hread
  have hrun : IsRun record v.runs := not_not.mp hrun
  rw [runRound, if_pos hread, wp_bind, wp_parseRun_iff, if_pos hrun]
  refine ⟨hin hread, ?_⟩
  have hempty : fs.clusterSize = 0 → v.listPos.runEnd fs record = 0 := by
    intro hzero
    have := hv.empty hzero
    simp only [ListPos.runEnd, RunLoop.listPos, this, hzero, Nat.mul_zero]
    rfl
  dsimp only
  refine wp_ite_intro (fun hover => ?_) fun hover => ?_
  · have hpos : 0 < fs.clusterSize := by
      by_contra hzero
      have := hempty (by omega)
      change offset < v.listPos.runEnd fs record ∧ _ at hover
      omega
    rw [wp_bind]
    refine wp_mono (wp_copyRun_returns hpos _ hv.read_lt (Nat.mod_lt _ (by decide)) s) ?_
    rintro ⟨ok, c⟩ t ⟨hok, hfail⟩
    dsimp only at hok hfail ⊢
    refine wp_ite_intro (fun htrue => ?_) fun hfalse => ?_
    · rw [wp_pure]
      refine ⟨fun v' hv' => ?_, fun hs => ⟨⟨_, rfl⟩, (hfail hs).2⟩⟩
      obtain rfl := Sum.inl.inj hv'
      refine ⟨⟨?_, fun hzero => absurd hzero hpos.ne'⟩, ?_⟩
      · dsimp only
        rw [hok htrue]
        exact Nat.mod_lt _ (by decide)
      · have hnext : v.listPos.read fs record offset size = c.bytesRead :=
          (if_pos hover).trans (hok htrue).symm
        change ListPos.mk _ c.bytesRead _ = ListPos.mk _ (v.listPos.read fs record offset size) _
        rw [hnext]
        rfl
    · rw [wp_pure]
      refine ⟨fun v' hv' => (by cases hv'), fun hs => absurd (hfail hs).1 hfalse⟩
  · rw [wp_pure]
    refine ⟨fun v' hv' => ?_, fun hs => ⟨⟨_, rfl⟩, hs⟩⟩
    obtain rfl := Sum.inl.inj hv'
    refine ⟨⟨hv.read_lt, hempty⟩, ?_⟩
    have hnext : v.listPos.read fs record offset size = v.bytesRead := if_neg hover
    change ListPos.mk _ v.bytesRead _ = ListPos.mk _ (v.listPos.read fs record offset size) _
    rw [hnext]
    rfl

/-- A round looks at the run that it is at. -/
lemma inside_of_wp_runRound {fs : NtfsFs} {record : Bytes} {offset size : ℕ} {v : RunLoop}
    {Q : RunLoop ⊕ ℤ × Bytes → NtfsState → Prop} {s : NtfsState}
    (h : wp (runRound fs record offset size v) Q s) :
    (runWalk fs record offset size).inside v.listPos := by
  intro hread
  have hread : v.bytesRead < size := hread
  rw [runRound, if_pos hread, wp_bind, wp_parseRun_iff] at h
  exact h.1

/-- A round where the walk stops leaves the loop. -/
lemma wp_runRound_stop {fs : NtfsFs} {record : Bytes} {offset size : ℕ} {v : RunLoop}
    (hin : (runWalk fs record offset size).inside v.listPos)
    (hstop : (runWalk fs record offset size).stop v.listPos) (s : NtfsState) :
    wp (runRound fs record offset size v) (fun r _ => ∃ a, r = .inr a) s := by
  rw [runRound]
  refine wp_ite_intro (fun hread => ?_) fun _ => ?_
  · have hrun : ¬IsRun record v.runs := hstop.resolve_left (not_le.mpr hread)
    rw [wp_bind, wp_parseRun_iff, if_neg hrun]
    exact ⟨hin hread, (wp_pure _ _ _).mpr ⟨_, rfl⟩⟩
  · exact (wp_pure _ _ _).mpr ⟨_, rfl⟩

/-- `read_nonresident` returns from every state of the drives exactly if its walk ends. -/
lemma total_readNonresident_iff (fs : NtfsFs) (record : Bytes) (attr offset size : ℕ) :
    (∀ out, Total (readNonresident fs record attr offset size out)) ↔ attr + 34 ≤ bufSize ∧
      (runWalk fs record offset size).Ends ⟨attr + Bytes.leNat record (attr + 32) 2, 0, 0⟩ := by
  set w := runWalk fs record offset size with hw
  constructor
  · intro h
    have hrun := h Bytes.zeros (filledState 0)
    rw [readNonresident_eq, Halts, wp_bind, wp_load] at hrun
    refine ⟨by omega, ?_⟩
    -- by induction on the rounds, over a loop whose transfers succeed
    have hloop : ∀ n v s, v.Sound fs → s.blk.NoFail →
        wp (iter (runRound fs record offset size) n v) (fun _ _ => True) s → w.Ends v.listPos := by
      intro n
      induction n with
      | zero =>
        rintro v s - - ⟨_, _, hnone, -⟩
        cases hnone
      | succ n ih =>
        intro v s hv hs hwp
        rw [wp_iter_succ] at hwp
        have hin := inside_of_wp_runRound hwp
        rw [Walk.ends_iff]
        refine ⟨hin, or_iff_not_imp_left.mpr fun hgo => ?_⟩
        obtain ⟨r, t, hround, hnext⟩ := hwp
        obtain ⟨hall, hsucc⟩ := wlp_of_wp (wp_runRound_next hv hin hgo s) r t hround
        obtain ⟨⟨v', rfl⟩, ht⟩ := hsucc hs
        obtain ⟨hv', hpos⟩ := hall v' rfl
        rw [← hpos]
        exact ih v' t hv' ht hnext
    exact hloop _ _ _ ⟨Nat.two_pow_pos 32, fun _ => rfl⟩ (fun _ => rfl) hrun.2
  · rintro ⟨hattr, hends⟩ out s
    rw [readNonresident_eq, Halts, wp_bind, wp_load]
    refine ⟨by omega, ?_⟩
    refine wp_iter (fun v _ => v.Sound fs ∧ w.Ends v.listPos) (fun v _ => bufSize - v.runs) ?_
      ⟨⟨Nat.two_pow_pos 32, fun _ => rfl⟩, hends⟩ (by unfold bufSize loopFuel; omega)
    rintro v t ⟨hv, hends⟩
    obtain ⟨hin, hrest⟩ := Walk.ends_iff.mp hends
    by_cases hstop : w.stop v.listPos
    · refine wp_mono (wp_runRound_stop hin hstop t) ?_
      rintro r t' ⟨a, rfl⟩
      trivial
    · refine wp_mono (wp_runRound_next hv hin hstop t) ?_
      rintro (v' | a) t' ⟨hall, -⟩
      · obtain ⟨hv', hpos⟩ := hall v' rfl
        refine ⟨⟨hv', ?_⟩, ?_⟩
        · rw [hpos]
          exact hrest.resolve_left hstop
        · have hruns : v'.runs = v.runs + runBytes record v.runs := congrArg ListPos.runs hpos
          have hlt := (hin (not_le.mp (not_or.mp hstop).1)).1
          change v.runs + 1 ≤ bufSize at hlt
          rw [hruns, runBytes]
          omega
      · trivial

end Ntfs

end CoolFrost

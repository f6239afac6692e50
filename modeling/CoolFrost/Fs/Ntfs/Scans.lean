import CoolFrost.Lib.Scan
import CoolFrost.Fs.Ntfs.Dir

/-!
# NTFS: what the parsing loops look at

Each loop over a record leaves the driver's state alone: `find_attr` goes from attribute to
attribute, `walk_index_entries` from entry to entry, and the loop of `read_nonresident` from run to
run.  The functions here say what one round looks at and where it goes on, and are undefined where
it would look past the end of the buffer.
-/

namespace CoolFrost

open Program

namespace Ntfs

variable {σ : Type}

/-! ## Attributes -/

/-- A round of `find_attr` at `off`. -/
def attrStep (b : Bytes) (usedSize type off : ℕ) : Option (ℕ ⊕ Option ℕ) :=
  if off + 16 ≤ usedSize then
    reads bufSize off 4
      (if Bytes.leNat b off 4 = attrEnd then some (.inr none)
      else
        reads bufSize (off + 4) 4
          (if Bytes.leNat b (off + 4) 4 = 0 then some (.inr none)
          else if Bytes.leNat b off 4 = type then some (.inr (some off))
          else some (.inl (u32 (off + Bytes.leNat b (off + 4) 4)))))
  else some (.inr none)

/-- The scan of `find_attr` goes on only inside of the buffer. -/
lemma attrStep_lt {b : Bytes} {usedSize type off off' : ℕ}
    (h : attrStep b usedSize type off = some (.inl off')) : off < bufSize := by
  have hex : ∃ r, attrStep b usedSize type off = some r ∧ r = .inl off' := ⟨_, h, rfl⟩
  simp only [attrStep, exists_ite_eq, exists_reads, exists_some_eq, reduceCtorEq, if_false_right,
    if_false_left] at hex
  obtain ⟨-, hin, -⟩ := hex
  omega

/-- `find_attr` returns what the scan of the attributes finds, if that ends. -/
lemma wp_findAttr (b : Bytes) (type : ℕ) (Q : Option ℕ → σ → Prop) (s : σ) :
    wp (findAttr b type) Q s ↔
      ∃ r, Scans (attrStep b (Bytes.leNat b 24 4) type) (Bytes.leNat b 20 2) r ∧ Q r s := by
  rw [findAttr]
  simp only [wp_bind, wp_load]
  rw [and_iff_right (by decide), and_iff_right (by decide)]
  refine Scans.wp_iter_iff_of_bounded (fun off Q s => ?_) (fun _ _ => attrStep_lt) (by decide)
  simp only [attrStep, wp_ite, wp_bind, wp_load, wp_pure, exists_ite_eq,
    exists_reads, exists_some_eq]

/-! ## Index entries -/

/-- What `utf16_to_ascii` makes of the `n` characters at `pos`. -/
def asciiAt (b : Bytes) : ℕ → ℕ → List UInt8
  | _, 0 => []
  | pos, n + 1 =>
    (if Bytes.leNat b pos 2 < 0x80 then UInt8.ofNat (Bytes.leNat b pos 2) else 63) ::
      asciiAt b (pos + 2) n

/-- The characters that are taken from the file name attribute at `fn`. -/
def nameLength (b : Bytes) (fn : ℕ) : ℕ := min (Bytes.leNat b (fn + 64) 1) (maxFilename - 1)

/-- The name of the file name attribute at `fn`. -/
def nameAt (b : Bytes) (fn : ℕ) : List UInt8 :=
  (asciiAt b (fn + 66) (nameLength b fn)).takeWhile (· ≠ 0)

/-- An entry is listed unless it is a DOS name or the name of a system file. -/
def Listed (b : Bytes) (ie : ℕ) : Prop :=
  Bytes.leNat b (ie + 16 + 65) 1 ≠ 2 ∧
    ¬(nameAt b (ie + 16) = [] ∨ (nameAt b (ie + 16)).head? = some 36)

instance (b : Bytes) (ie : ℕ) : Decidable (Listed b ie) := inferInstanceAs (Decidable (_ ∧ _))

/-- Whether the entry at `ie` is listed, if the bytes of its file name attribute are in the
buffer. -/
def visit (b : Bytes) (ie : ℕ) : Option Bool :=
  reads bufSize (ie + 16 + 65) 1
    (if Bytes.leNat b (ie + 16 + 65) 1 = 2 then some false
    else
      reads bufSize (ie + 16 + 64) 1
        (if nameLength b (ie + 16) = 0 then some false
        else reads bufSize (ie + 16 + 66) (2 * nameLength b (ie + 16))
          (some (decide (Listed b ie)))))

/-- What `visitEntry` makes of an entry. -/
def visitResult (b : Bytes) (ie : ℕ) (listed : Bool) (counter : ℕ) : Query → ℕ ⊕ ℕ × ℕ
  | .name n =>
    if listed ∧ ntfsStrcasecmp (nameAt b (ie + 16)) n = 0 then
      .inr (Bytes.leNat b ie 8 % 2 ^ 48, ie + 16)
    else .inl counter
  | .index i =>
    if listed then
      if (counter : ℤ) = i then .inr (Bytes.leNat b ie 8 % 2 ^ 48, ie + 16) else .inl (counter + 1)
    else .inl counter

/-- A round of `walk_index_entries` at `off`: nothing if it ends the walk, and else whether the
entry is listed and where the next one is. -/
def entryStep (b : Bytes) (base total off : ℕ) : Option (Option (Bool × ℕ)) :=
  if off + 16 ≤ total then
    reads bufSize (base + off + 12) 4
      (if Bytes.leNat b (base + off + 12) 4 / 2 % 2 = 1 then some none
      else
        reads bufSize (base + off + 8) 2
          (if Bytes.leNat b (base + off + 8) 2 = 0 then some none
          else
            reads bufSize (base + off + 10) 2
              (if 66 ≤ Bytes.leNat b (base + off + 10) 2 then
                (visit b (base + off)).map fun listed =>
                  some (listed, u32 (off + Bytes.leNat b (base + off + 8) 2))
              else some (some (false, u32 (off + Bytes.leNat b (base + off + 8) 2))))))
  else some none

/-- A round of `walk_index_entries` with the query `q`. -/
def walkStep (b : Bytes) (base total : ℕ) (q : Query) (v : ℕ × ℕ) :
    Option ((ℕ × ℕ) ⊕ (ℕ ⊕ ℕ × ℕ)) :=
  (entryStep b base total v.1).map fun
    | none => .inr (.inl v.2)
    | some (listed, off) =>
      match visitResult b (base + v.1) listed v.2 q with
      | .inl counter => .inl (off, counter)
      | .inr found => .inr (.inr found)

lemma wp_utf16ToAscii (b : Bytes) (pos n : ℕ) (Q : List UInt8 → σ → Prop) (s : σ) :
    wp (utf16ToAscii b pos n) Q s ↔ (n ≠ 0 → pos + 2 * n ≤ bufSize) ∧ Q (asciiAt b pos n) s := by
  induction n generalizing pos Q with
  | zero =>
    rw [utf16ToAscii, wp_pure]
    exact (and_iff_right fun h => absurd rfl h).symm
  | succ n ih =>
    simp only [utf16ToAscii, wp_bind, wp_load, ih, wp_pure, asciiAt, ← and_assoc]
    refine and_congr_left fun _ => ?_
    constructor
    · rintro ⟨h, hrest⟩ -
      rcases Nat.eq_zero_or_pos n with rfl | hn
      · exact h
      · have := hrest (by omega)
        omega
    · intro h
      have := h (Nat.succ_ne_zero n)
      exact ⟨by omega, fun _ => by omega⟩

lemma wp_fnName (b : Bytes) (fn : ℕ) (Q : List UInt8 → σ → Prop) (s : σ) :
    wp (fnName b fn) Q s ↔ fn + 64 + 1 ≤ bufSize ∧
      (nameLength b fn ≠ 0 → fn + 66 + 2 * nameLength b fn ≤ bufSize) ∧ Q (nameAt b fn) s := by
  simp only [fnName, wp_bind, wp_load, wp_utf16ToAscii, wp_pure]
  rfl

lemma nameAt_eq_nil {b : Bytes} {fn : ℕ} (h : nameLength b fn = 0) : nameAt b fn = [] := by
  rw [nameAt, h, asciiAt, List.takeWhile_nil]

lemma visitResult_false (b : Bytes) (ie counter : ℕ) (q : Query) :
    visitResult b ie false counter q = .inl counter := by
  cases q with
  | name n =>
    rw [visitResult]
    exact if_neg fun h => Bool.false_ne_true h.1
  | index i => rfl

lemma wp_visitEntry (b : Bytes) (ie counter : ℕ) (q : Query) (Q : ℕ ⊕ ℕ × ℕ → σ → Prop) (s : σ) :
    wp (visitEntry b ie counter q) Q s ↔
      ∃ listed, visit b ie = some listed ∧ Q (visitResult b ie listed counter q) s := by
  simp only [visitEntry, visit, wp_bind, wp_load, wp_ite, wp_pure, wp_fnName, exists_reads,
    exists_ite_eq, exists_some_eq, visitResult_false]
  refine and_congr_right fun hin => ?_
  by_cases hdos : Bytes.leNat b (ie + 16 + 65) 1 = 2
  · rw [if_pos hdos, if_pos hdos]
  rw [if_neg hdos, if_neg hdos]
  refine and_congr_right fun _ => ?_
  by_cases hlen : nameLength b (ie + 16) = 0
  · rw [if_pos hlen, if_pos (.inl (nameAt_eq_nil hlen))]
    exact and_iff_right fun h => absurd hlen h
  rw [if_neg hlen, forall_prop_of_true hlen]
  refine and_congr_right fun _ => ?_
  by_cases hname : nameAt b (ie + 16) = [] ∨ (nameAt b (ie + 16)).head? = some 36
  · have hlisted : ¬Listed b ie := fun h => h.2 hname
    rw [if_pos hname, decide_eq_false hlisted, visitResult_false]
  have hlisted : Listed b ie := ⟨hdos, hname⟩
  rw [if_neg hname, decide_eq_true hlisted]
  have hat : ie + 8 ≤ bufSize := by omega
  cases q with
  | name n =>
    by_cases heq : ntfsStrcasecmp (nameAt b (ie + 16)) n = 0
    · simp only [visitResult, heq, if_true, and_self, wp_bind, wp_load, wp_pure, hat, true_and]
    · simp only [visitResult, heq, if_false, and_false, wp_pure]
  | index i =>
    by_cases heq : (counter : ℤ) = i
    · simp only [visitResult, heq, if_true, wp_bind, wp_load, wp_pure, hat, true_and]
    · simp only [visitResult, heq, if_true, if_false, wp_pure]

/-- The walk goes on inside of the buffer, and to a later entry. -/
lemma entryStep_next {b : Bytes} {base total off off' : ℕ} {listed : Bool}
    (h : entryStep b base total off = some (some (listed, off'))) : off < bufSize ∧ off < off' := by
  have hex : ∃ r, entryStep b base total off = some r ∧ r = some (listed, off') := ⟨_, h, rfl⟩
  simp only [entryStep, exists_ite_eq, exists_reads, exists_some_eq, exists_map_eq] at hex
  have hlen : Bytes.leNat b (base + off + 8) 2 < 256 ^ 2 := Bytes.leNat_lt b _ 2
  simp only [u32, reduceCtorEq, if_false_right, if_false_left] at hex
  obtain ⟨-, -, -, -, hpos, hin, hnext⟩ := hex
  unfold bufSize at hin ⊢
  split at hnext
  · obtain ⟨c, -, hnext⟩ := hnext
    cases hnext
    exact ⟨by omega, by omega⟩
  · cases hnext
    exact ⟨by omega, by omega⟩

lemma walkStep_next {b : Bytes} {base total : ℕ} {q : Query} {v v' : ℕ × ℕ}
    (h : walkStep b base total q v = some (.inl v')) :
    ∃ listed, entryStep b base total v.1 = some (some (listed, v'.1)) ∧
      visitResult b (base + v.1) listed v.2 q = .inl v'.2 := by
  obtain ⟨e, he, hv⟩ := Option.map_eq_some_iff.mp h
  cases e with
  | none => cases hv
  | some e =>
    obtain ⟨listed, off⟩ := e
    dsimp only at hv
    split at hv
    · rename_i hres
      obtain rfl := Sum.inl.inj hv
      exact ⟨listed, he, hres⟩
    · cases hv

/-- `walk_index_entries` returns what its scan finds, if that ends. -/
lemma wp_walkIndexEntries (b : Bytes) (base counter : ℕ) (q : Query) (Q : ℕ ⊕ ℕ × ℕ → σ → Prop)
    (s : σ) :
    wp (walkIndexEntries b base counter q) Q s ↔ base + 8 ≤ bufSize ∧
      ∃ r, Scans (walkStep b base (Bytes.leNat b (base + 4) 4) q)
        (Bytes.leNat b base 4, counter) r ∧
        Q r s := by
  rw [walkIndexEntries]
  simp only [wp_bind, wp_load, ← and_assoc]
  rw [show base + 4 ≤ bufSize ∧ base + 4 + 4 ≤ bufSize ↔ base + 8 ≤ bufSize by omega]
  refine and_congr_right fun _ => ?_
  refine Scans.wp_iter_iff ?_ (fun v => bufSize - v.1) ?_ (by unfold bufSize loopFuel; omega)
  · rintro ⟨off, counter⟩ Q s
    simp only [walkStep, entryStep, exists_map_eq, exists_ite_eq, exists_reads,
      exists_some_eq, wp_ite, wp_bind, wp_load, wp_pure, wp_visitEntry, visitResult_false]
    split_ifs
    all_goals try exact Iff.rfl
    refine and_congr_right fun _ => and_congr_right fun _ => and_congr_right fun _ => ?_
    refine exists_congr fun listed => and_congr_right fun _ => ?_
    cases visitResult b (base + off) listed counter q with
    | inl c => rw [wp_pure]
    | inr found => rw [wp_pure]
  · intro v v' h
    obtain ⟨listed, h, -⟩ := walkStep_next h
    have := entryStep_next h
    omega

end Ntfs

end CoolFrost

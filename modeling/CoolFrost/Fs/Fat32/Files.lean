import CoolFrost.Fs.Fat32.Clusters

/-!
# FAT32: the bytes of a file

Position `q` of a file with the clusters `l` is the byte at `fileAddr fs l q` of the data area.
`fat32_read` and `fat32_write` go through the window cluster by cluster and in each cluster sector
by sector; the position they have come to is the offset of the window plus the number of bytes done.
-/

namespace CoolFrost

open Program

namespace Fat32

variable {fs : Fat32Fs} {v : Volume}

/-! ## The sectors of one cluster -/

/-- Past the sector that holds the current position, the loop only ever moves the last sector of the
run on, to beyond every sector that overlaps the window. -/
lemma sectorWindow_some {spc pos offset size a : ℕ} (hend : offset + size ≤ 2 ^ 32 - 512)
    (hpos : offset < pos + (a + 1) * 512) {n b : ℕ} (hn : n ≤ spc) (ha : a ≤ b) (hb : b < spc - n)
    (hseen : ∀ s < spc - n, pos + s * 512 < offset + size → s ≤ b) :
    ∃ b', sectorWindow spc pos offset size n (some (a, b)) = some (a, b') ∧ a ≤ b' ∧ b' < spc ∧
      ∀ s < spc, pos + s * 512 < offset + size → s ≤ b' := by
  induction n generalizing b with
  | zero => exact ⟨b, rfl, ha, hb, hseen⟩
  | succ n ih =>
    have hs : spc - n = spc - (n + 1) + 1 := by omega
    have hu := Nat.mod_le (pos + (spc - (n + 1)) * 512) (2 ^ 32)
    simp only [sectorWindow]
    split_ifs with hskip hstop
    · -- the 32-bit position has wrapped, so the sector is past the window
      refine ih (by omega) ha (by omega) fun s hlt hlow => ?_
      rcases Nat.lt_succ_iff_lt_or_eq.mp (hs ▸ hlt) with hlt | rfl
      · exact hseen s hlt hlow
      · exfalso
        unfold u32 at hskip
        omega
    · refine ⟨b, rfl, ha, by omega, fun s hlt hlow => ?_⟩
      rcases Nat.lt_or_ge s (spc - (n + 1)) with h | h
      · exact hseen s h hlow
      · exfalso
        unfold u32 at hstop
        omega
    · refine ih (by omega) (by omega) (by omega) fun s hlt _ => ?_
      omega

/-- The run of sectors that the loop finds starts with the sector of the current position, the
larger one of `pos` and `offset`, and reaches every sector that overlaps the window. -/
lemma sectorWindow_eq {spc pos offset size : ℕ} (hend : offset + size ≤ 2 ^ 32 - 512)
    (hlt : max pos offset < offset + size) (hin : max pos offset < pos + spc * 512) :
    ∃ b, sectorWindow spc pos offset size spc none = some ((max pos offset - pos) / 512, b) ∧
      (max pos offset - pos) / 512 ≤ b ∧ b < spc ∧
      ∀ s < spc, pos + s * 512 < offset + size → s ≤ b := by
  obtain ⟨a, ha⟩ : ∃ a, a = (max pos offset - pos) / 512 := ⟨_, rfl⟩
  rw [← ha]
  have hfrom : ∀ n ≤ spc, spc - n ≤ a → ∃ b, sectorWindow spc pos offset size n none = some (a, b) ∧
      a ≤ b ∧ b < spc ∧ ∀ s < spc, pos + s * 512 < offset + size → s ≤ b := by
    intro n
    induction n with
    | zero => intro _ h; omega
    | succ n ih =>
      intro hn hle
      have hu : u32 (pos + (spc - (n + 1)) * 512) = pos + (spc - (n + 1)) * 512 :=
        Nat.mod_eq_of_lt (by omega)
      have hu' : u32 (pos + (spc - (n + 1)) * 512 + 512) = pos + (spc - (n + 1)) * 512 + 512 :=
        Nat.mod_eq_of_lt (by omega)
      simp only [sectorWindow, hu, hu', Option.getD_none]
      split_ifs with hskip hstop
      · exact ih (by omega) (by omega)
      · omega
      · obtain ⟨hs, hnext⟩ : spc - (n + 1) = a ∧ offset < pos + (a + 1) * 512 := by omega
        rw [hs]
        exact sectorWindow_some hend hnext (by omega) le_rfl (by omega)
          fun s hlt _ => by omega
  exact hfrom spc le_rfl (by omega)

/-- The last sector found is one that the loop neither passes over nor stops at. -/
lemma sectorWindow_last {spc pos offset size n a b : ℕ} {found : Option (ℕ × ℕ)}
    (hfound : ∀ a b, found = some (a, b) → offset < u32 (u32 (pos + b * 512) + 512) ∧
      u32 (pos + b * 512) < offset + size)
    (h : sectorWindow spc pos offset size n found = some (a, b)) :
    offset < u32 (u32 (pos + b * 512) + 512) ∧ u32 (pos + b * 512) < offset + size := by
  induction n generalizing found with
  | zero => exact hfound a b h
  | succ n ih =>
    simp only [sectorWindow] at h
    split_ifs at h with hskip hstop
    · exact ih hfound h
    · exact hfound a b h
    · refine ih ?_ h
      rintro a b ⟨⟩
      exact ⟨Nat.lt_of_not_le hskip, Nat.lt_of_not_le hstop⟩

lemma u32sub_sector {n : ℕ} (hn : n ≤ 512) : u32sub 512 n = 512 - n := by
  unfold u32sub u32
  omega

/-- Where the copying of one sector starts, and how far it goes, when the position `p` lies in
it. -/
lemma sectorCopy_eq {pos offset size s p : ℕ} (hlow : pos + s * 512 < 2 ^ 32)
    (hp : p = max (pos + s * 512) offset) (hlo : p < pos + (s + 1) * 512)
    (hlt : p < offset + size) :
    sectorCopy (u32 (pos + s * 512)) offset (size - (p - offset)) =
      (p - (pos + s * 512), min (pos + (s + 1) * 512) (offset + size) - p) := by
  have hu : u32 (pos + s * 512) = pos + s * 512 := Nat.mod_eq_of_lt hlow
  have hstart : (if pos + s * 512 < offset then u32 (offset - (pos + s * 512)) else 0) =
      p - (pos + s * 512) := by
    split_ifs with h
    · rw [u32, Nat.mod_eq_of_lt (by omega)]
      omega
    · omega
  have hsub : u32sub 512 (p - (pos + s * 512)) = 512 - (p - (pos + s * 512)) :=
    u32sub_sector (by omega)
  simp only [sectorCopy, hu, hstart, hsub, Prod.mk.injEq, true_and]
  clear hu hstart hsub
  omega

/-- Nothing is copied once the window is done. -/
lemma sectorCopy_done (secStart offset : ℕ) : (sectorCopy secStart offset 0).2 = 0 :=
  Nat.min_zero _

/-- The position reached after the sectors before `s`. -/
def reached (pos offset size s : ℕ) : ℕ := min (max (pos + s * 512) offset) (offset + size)

lemma reached_done {pos offset size s : ℕ} (h : offset + size ≤ max (pos + s * 512) offset) :
    reached pos offset size s = offset + size := min_eq_right h

lemma reached_mono (pos offset size : ℕ) {s s' : ℕ} (h : s ≤ s') :
    reached pos offset size s ≤ reached pos offset size s' := by
  have hmul : s * 512 ≤ s' * 512 := Nat.mul_le_mul_right _ h
  exact min_le_min_right _ (max_le_max_right _ (Nat.add_le_add_left hmul pos))

lemma offset_le_reached (pos offset size s : ℕ) : offset ≤ reached pos offset size s :=
  le_min (le_max_right _ _) (Nat.le_add_right _ _)

lemma reached_le (pos offset size s : ℕ) : reached pos offset size s ≤ offset + size :=
  min_le_right _ _

/-- The bytes of one sector, when the window is not done before it. -/
lemma sectorCopy_reached {pos offset size s : ℕ} (hlow : pos + s * 512 < 2 ^ 32)
    (hs : offset < pos + (s + 1) * 512) (hlt : max (pos + s * 512) offset < offset + size) :
    sectorCopy (u32 (pos + s * 512)) offset (size - (reached pos offset size s - offset)) =
      (reached pos offset size s - (pos + s * 512),
        reached pos offset size (s + 1) - reached pos offset size s) := by
  have hp : reached pos offset size s = max (pos + s * 512) offset := min_eq_left hlt.le
  have hq : reached pos offset size (s + 1) = min (pos + (s + 1) * 512) (offset + size) := by
    rw [reached, max_eq_left hs.le]
  rw [sectorCopy_eq hlow hp (by omega) (by omega), hq]

/-- The 32-bit positions of the `n` sectors from `s` on that are copied from are right. -/
def LowSectors (pos offset size n s : ℕ) : Prop :=
  ∀ i < n, max (pos + (s + i) * 512) offset < offset + size → pos + (s + i) * 512 < 2 ^ 32

lemma LowSectors.head {pos offset size n s : ℕ} (h : LowSectors pos offset size (n + 1) s)
    (hlt : max (pos + s * 512) offset < offset + size) : pos + s * 512 < 2 ^ 32 :=
  h 0 (Nat.succ_pos n) hlt

lemma LowSectors.tail {pos offset size n s : ℕ} (h : LowSectors pos offset size (n + 1) s) :
    LowSectors pos offset size n (s + 1) := by
  intro i hi hlt
  have heq : s + 1 + i = s + (i + 1) := by omega
  rw [heq] at hlt ⊢
  exact h (i + 1) (Nat.succ_lt_succ hi) hlt

lemma copyOut_done (firstS pos offset size : ℕ) (buf : Bytes) (n s : ℕ) (out : Bytes) :
    copyOut firstS pos offset size buf n s (out, size) = (out, size) := by
  induction n generalizing s with
  | zero => rfl
  | succ n ih =>
    rw [copyOut, Nat.sub_self, sectorCopy_done, Bytes.blit_zero_len, Nat.add_zero]
    exact ih (s + 1)

lemma copyIn_done (firstS pos offset size : ℕ) (input : Bytes) (n s : ℕ) (buf : Bytes) :
    copyIn firstS pos offset size input n s (buf, size) = (buf, size) := by
  induction n generalizing s with
  | zero => rfl
  | succ n ih =>
    rw [copyIn, Nat.sub_self, sectorCopy_done, Bytes.blit_zero_len, Nat.add_zero]
    exact ih (s + 1)

/-- Copying sectors to the caller's buffer copies one piece of the cluster. -/
lemma copyOut_eq {pos offset size firstS : ℕ} (buf : Bytes) {n s : ℕ}
    (hlow : LowSectors pos offset size n s) (hfirst : firstS ≤ s)
    (hs : offset < pos + (s + 1) * 512) (out : Bytes) :
    copyOut firstS pos offset size buf n s (out, reached pos offset size s - offset) =
      (Bytes.blit out (reached pos offset size s - offset)
        (Bytes.shift buf (reached pos offset size s - (pos + firstS * 512)))
        (reached pos offset size (s + n) - reached pos offset size s),
        reached pos offset size (s + n) - offset) := by
  induction n generalizing s out with
  | zero => simp [copyOut]
  | succ n ih =>
    have hoff := offset_le_reached pos offset size s
    have hle := reached_mono pos offset size (Nat.le_add_right s 1)
    have hle' := reached_mono pos offset size (Nat.le_add_right (s + 1) n)
    have hnext : s + (n + 1) = s + 1 + n := by omega
    rcases Nat.lt_or_ge (max (pos + s * 512) offset) (offset + size) with hlt | hge
    · have hp : reached pos offset size s = max (pos + s * 512) offset := min_eq_left hlt.le
      have hin : pos + s * 512 ≤ reached pos offset size s := hp ▸ le_max_left _ _
      rw [copyOut, sectorCopy_reached (hlow.head hlt) hs hlt, hnext]
      replace hlow := hlow.tail
      -- name the three positions; what is left is that two adjacent copies are one
      generalize reached pos offset size s = p at *
      obtain ⟨q, hq⟩ : ∃ q, q = reached pos offset size (s + 1) := ⟨_, rfl⟩
      have hdone : p - offset + (q - p) = q - offset := by omega
      have hsrc : (s - firstS) * 512 + (p - (pos + s * 512)) = p - (pos + firstS * 512) := by
        have hmul : firstS * 512 ≤ s * 512 := Nat.mul_le_mul_right _ hfirst
        rw [Nat.sub_mul]
        omega
      have hsrc' : q - (pos + firstS * 512) = p - (pos + firstS * 512) + (q - p) := by
        have hmul : firstS * 512 ≤ s * 512 := Nat.mul_le_mul_right _ hfirst
        omega
      have hlen : reached pos offset size (s + 1 + n) - p =
          q - p + (reached pos offset size (s + 1 + n) - q) := by omega
      dsimp only
      rw [← hq, hdone, hq, ih hlow (by omega) (by linarith), ← hq, hsrc, hsrc', ← Bytes.shift_shift,
        ← hdone, Bytes.blit_append, hlen]
    · have hfin := reached_done hge
      have hfin' : reached pos offset size (s + (n + 1)) = offset + size := by
        have := reached_le pos offset size (s + (n + 1))
        have := reached_mono pos offset size (Nat.le_add_right s (n + 1))
        omega
      rw [hfin, hfin', Nat.add_sub_cancel_left, Nat.sub_self, Bytes.blit_zero_len, copyOut_done]

/-- Copying the caller's bytes over sectors copies one piece into the cluster. -/
lemma copyIn_eq {pos offset size firstS : ℕ} (input : Bytes) {n s : ℕ}
    (hlow : LowSectors pos offset size n s) (hfirst : firstS ≤ s)
    (hs : offset < pos + (s + 1) * 512) (buf : Bytes) :
    copyIn firstS pos offset size input n s (buf, reached pos offset size s - offset) =
      (Bytes.blit buf (reached pos offset size s - (pos + firstS * 512))
        (Bytes.shift input (reached pos offset size s - offset))
        (reached pos offset size (s + n) - reached pos offset size s),
        reached pos offset size (s + n) - offset) := by
  induction n generalizing s buf with
  | zero => simp [copyIn]
  | succ n ih =>
    have hoff := offset_le_reached pos offset size s
    have hle := reached_mono pos offset size (Nat.le_add_right s 1)
    have hle' := reached_mono pos offset size (Nat.le_add_right (s + 1) n)
    have hnext : s + (n + 1) = s + 1 + n := by omega
    rcases Nat.lt_or_ge (max (pos + s * 512) offset) (offset + size) with hlt | hge
    · have hp : reached pos offset size s = max (pos + s * 512) offset := min_eq_left hlt.le
      have hin : pos + s * 512 ≤ reached pos offset size s := hp ▸ le_max_left _ _
      rw [copyIn, sectorCopy_reached (hlow.head hlt) hs hlt, hnext]
      replace hlow := hlow.tail
      generalize reached pos offset size s = p at *
      obtain ⟨q, hq⟩ : ∃ q, q = reached pos offset size (s + 1) := ⟨_, rfl⟩
      have hdone : p - offset + (q - p) = q - offset := by omega
      have hdst : (s - firstS) * 512 + (p - (pos + s * 512)) = p - (pos + firstS * 512) := by
        have hmul : firstS * 512 ≤ s * 512 := Nat.mul_le_mul_right _ hfirst
        rw [Nat.sub_mul]
        omega
      have hdst' : q - (pos + firstS * 512) = p - (pos + firstS * 512) + (q - p) := by
        have hmul : firstS * 512 ≤ s * 512 := Nat.mul_le_mul_right _ hfirst
        omega
      have hlen : reached pos offset size (s + 1 + n) - p =
          q - p + (reached pos offset size (s + 1 + n) - q) := by omega
      dsimp only
      rw [← hq, hdone, hq, ih hlow (by omega) (by linarith), ← hq, hdst, hdst', ← hdone,
        ← Bytes.shift_shift, Bytes.blit_append, hlen]
    · have hfin := reached_done hge
      have hfin' : reached pos offset size (s + (n + 1)) = offset + size := by
        have := reached_le pos offset size (s + (n + 1))
        have := reached_mono pos offset size (Nat.le_add_right s (n + 1))
        omega
      rw [hfin, hfin', Nat.add_sub_cancel_left, Nat.sub_self, Bytes.blit_zero_len, copyIn_done]

/-- The number of bytes of a window that lie before the sector at `2 ^ 32 - 512`, the first one
whose end is not a 32-bit position. -/
def visible (offset size : ℕ) : ℕ := min (offset + size) (2 ^ 32 - 512) - offset

lemma visible_eq {offset size : ℕ} (h : offset + size ≤ 2 ^ 32 - 512) :
    visible offset size = size := by
  rw [visible]
  omega

/-- The sectors of a cluster from there on are passed over. -/
def Hidden (spc pos offset : ℕ) : Prop :=
  ∀ s < spc, 2 ^ 32 - 512 ≤ pos + s * 512 → u32 (u32 (pos + s * 512) + 512) ≤ offset

/-- The loop finds the same run for the part of the window before that sector. -/
lemma sectorWindow_visible {spc pos offset size n : ℕ} {found : Option (ℕ × ℕ)}
    (hidden : Hidden spc pos offset) (hn : n ≤ spc) :
    sectorWindow spc pos offset size n found =
      sectorWindow spc pos offset (visible offset size) n found := by
  induction n generalizing found with
  | zero => rfl
  | succ n ih =>
    replace ih : ∀ f, sectorWindow spc pos offset size n f =
        sectorWindow spc pos offset (visible offset size) n f := fun f => ih (Nat.le_of_succ_le hn)
    simp only [sectorWindow]
    by_cases hskip : u32 (u32 (pos + (spc - (n + 1)) * 512) + 512) ≤ offset
    · rw [if_pos hskip, if_pos hskip, ih]
    · have hlow : pos + (spc - (n + 1)) * 512 < 2 ^ 32 - 512 := by
        by_contra hge
        exact hskip (hidden _ (by omega) (Nat.le_of_not_lt hge))
      have hle : u32 (pos + (spc - (n + 1)) * 512) ≤ pos + (spc - (n + 1)) * 512 := Nat.mod_le _ _
      have hstop : offset + visible offset size ≤ u32 (pos + (spc - (n + 1)) * 512) ↔
          offset + size ≤ u32 (pos + (spc - (n + 1)) * 512) := by
        rw [visible]
        omega
      rw [if_neg hskip, if_neg hskip, ih]
      simp only [hstop]

/-- Nothing is found when every sector is passed over. -/
lemma sectorWindow_none {spc pos offset size n : ℕ}
    (h : ∀ s < spc, u32 (u32 (pos + s * 512) + 512) ≤ offset) (hn : n ≤ spc) :
    sectorWindow spc pos offset size n none = none := by
  induction n with
  | zero => rfl
  | succ n ih =>
    simp only [sectorWindow]
    rw [if_pos (h _ (by omega)), ih (by omega)]

/-- A sector that starts before the sector at `2 ^ 32 - 512` ends before it. -/
lemma sector_end_le {pos b : ℕ} (hdvd : 512 ∣ pos) (h : pos + b * 512 < 2 ^ 32 - 512) :
    pos + (b + 1) * 512 ≤ 2 ^ 32 - 512 := by
  obtain ⟨k, rfl⟩ := hdvd
  omega

/-- The run of sectors for one cluster takes the position from the larger one of `pos` and `offset`
to the end of the cluster or of what is visible of the window. -/
lemma exists_window {spc pos offset size : ℕ}
    (hend : offset + size ≤ 2 ^ 32 - 512 ∨ 512 ∣ pos ∧ Hidden spc pos offset)
    (hlt : max pos offset < offset + visible offset size)
    (hin : max pos offset < pos + spc * 512) :
    ∃ a b, sectorWindow spc pos offset size spc none = some (a, b) ∧ a ≤ b ∧ b < spc ∧
      offset < pos + (a + 1) * 512 ∧ pos + a * 512 ≤ max pos offset ∧
      LowSectors pos offset size (b - a + 1) a ∧ reached pos offset size a = max pos offset ∧
      reached pos offset size (a + (b - a + 1)) =
        min (pos + spc * 512) (offset + visible offset size) ∧
      min (pos + spc * 512) (offset + visible offset size) ≤ pos + (b + 1) * 512 := by
  obtain ⟨n, hmin⟩ : ∃ n, n = min (offset + size) (2 ^ 32 - 512) - offset := ⟨_, rfl⟩
  rw [visible, ← hmin] at hlt ⊢
  have hvis : offset + n = min (offset + size) (2 ^ 32 - 512) := by omega
  obtain ⟨b, hwin, hab, hb, hcover⟩ :=
    @sectorWindow_eq spc pos offset n (hvis ▸ min_le_right _ _) hlt hin
  have hend' : max pos offset < offset + size := hlt.trans_le (hvis ▸ min_le_left _ _)
  obtain ⟨a, ha⟩ : ∃ a, a = (max pos offset - pos) / 512 := ⟨_, rfl⟩
  rw [← ha] at hwin hab
  have hnext : offset < pos + (a + 1) * 512 := by omega
  have hstart : pos + a * 512 ≤ max pos offset := by omega
  have hfrom : reached pos offset size a = max pos offset := by
    have hmax : max (pos + a * 512) offset = max pos offset := by omega
    rw [reached, hmax, min_eq_left hend'.le]
  have hlast : min (pos + spc * 512) (offset + n) ≤ pos + (b + 1) * 512 := by
    rcases Nat.lt_or_ge (pos + (b + 1) * 512) (offset + n) with h | h
    · have hspc : spc ≤ b + 1 := by
        by_contra hlt'
        exact absurd (hcover (b + 1) (by omega) h) (by omega)
      have hmul : spc * 512 ≤ (b + 1) * 512 := Nat.mul_le_mul_right _ hspc
      exact (min_le_left _ _).trans (Nat.add_le_add_left hmul pos)
    · exact (min_le_right _ _).trans h
  have hab' : a + (b - a + 1) = b + 1 := by omega
  have hmul : (a + 1) * 512 ≤ (b + 1) * 512 := Nat.mul_le_mul_right _ (by omega)
  have hmul' : (b + 1) * 512 ≤ spc * 512 := Nat.mul_le_mul_right _ hb
  have hto : reached pos offset size (a + (b - a + 1)) =
      min (pos + (b + 1) * 512) (offset + size) := by
    rw [hab', reached, max_eq_left (hnext.le.trans (Nat.add_le_add_left hmul pos))]
  clear ha hab'
  rcases hend with hend | ⟨hdvd, hidden⟩
  · obtain rfl : n = size := by omega
    refine ⟨a, b, hwin, hab, hb, hnext, hstart, fun i _ h => ?_, hfrom,
      hto.trans ?_, hlast⟩
    · omega
    · omega
  · have hsame := @sectorWindow_visible spc pos offset size spc none hidden le_rfl
    rw [visible, ← hmin] at hsame
    rw [← hsame] at hwin
    -- the last sector is not hidden, so its end is a 32-bit position
    have hlow : pos + (b + 1) * 512 ≤ 2 ^ 32 - 512 := by
      have hshown := (sectorWindow_last (fun _ _ h => by simp at h) hwin).1
      refine sector_end_le hdvd ?_
      by_contra hge
      exact absurd (hidden b hb (Nat.le_of_not_lt hge)) (Nat.not_le_of_lt hshown)
    refine ⟨a, b, hwin, hab, hb, hnext, hstart, fun i hi _ => ?_, hfrom,
      hto.trans ?_, hlast⟩
    · have hmul'' : (a + i) * 512 ≤ b * 512 := Nat.mul_le_mul_right _ (by omega)
      omega
    · omega

/-! ## The clusters of a file -/

/-- The address of position `q` of a file with the clusters `l`. -/
def fileAddr (fs : Fat32Fs) (l : List ℕ) (q : ℕ) : ℕ :=
  clusterOff fs (l.getD (q / clusterSize fs) 0) + q % clusterSize fs

/-- The address of a position inside a given cluster of a file. -/
lemma fileAddr_of_cluster (hl : Layout fs) {l : List ℕ} {k c q : ℕ} (hc : l[k]? = some c)
    (hlo : k * clusterSize fs ≤ q) (hhi : q < (k + 1) * clusterSize fs) :
    fileAddr fs l q = clusterOff fs c + (q - k * clusterSize fs) := by
  have hpos := clusterSize_pos hl
  obtain ⟨j, rfl⟩ := Nat.exists_eq_add_of_le hlo
  have hj : j < clusterSize fs := by
    rw [Nat.add_mul, Nat.one_mul] at hhi
    omega
  have hdiv : (k * clusterSize fs + j) / clusterSize fs = k := by
    rw [Nat.add_comm, Nat.add_mul_div_right _ _ hpos, Nat.div_eq_of_lt hj, Nat.zero_add]
  have hmod : (k * clusterSize fs + j) % clusterSize fs = j := by
    rw [Nat.add_comm, Nat.add_mul_mod_self_right, Nat.mod_eq_of_lt hj]
  rw [fileAddr, hdiv, hmod, List.getD_eq_getElem?_getD, hc, Option.getD_some,
    Nat.add_sub_cancel_left]

/-- The position of a file lies in the cluster it belongs to. -/
lemma inCluster_fileAddr (hl : Layout fs) {l : List ℕ} {q : ℕ}
    (hq : q < l.length * clusterSize fs) :
    ∃ c ∈ l, InCluster fs c (fileAddr fs l q) := by
  have hpos := clusterSize_pos hl
  have hk : q / clusterSize fs < l.length := Nat.div_lt_of_lt_mul (by rwa [Nat.mul_comm])
  refine ⟨l[q / clusterSize fs], List.getElem_mem hk, ?_⟩
  have hmod := Nat.mod_lt q hpos
  rw [fileAddr, List.getD_eq_getElem?_getD, List.getElem?_eq_getElem hk, Option.getD_some]
  exact ⟨Nat.le_add_right _ _, Nat.add_lt_add_left hmod _⟩

/-- A chain that has been walked for `k` clusters is at the cluster number `k`. -/
lemma getElem?_of_drop {l l' : List ℕ} {k c : ℕ} (h : l.drop k = c :: l') : l[k]? = some c := by
  rw [← List.head?_drop, h, List.head?_cons]

lemma drop_succ_of_drop {l l' : List ℕ} {k c : ℕ} (h : l.drop k = c :: l') :
    l.drop (k + 1) = l' := by
  rw [← List.tail_drop, h, List.tail_cons]

/-- The loop that skips the clusters before `offset`. -/
lemma wp_skipClusters (hl : Layout fs) {offset first : ℕ} {l : List ℕ}
    (h : ChainAt fs v.fat first l) :
    (fat32View fs).wp (skipClusters fs offset first) (fun r v' => v' = v ∧ ∃ k ≤ l.length,
      r.2 = k * clusterSize fs ∧ ChainAt fs v.fat r.1 (l.drop k) ∧ r.2 ≤ offset ∧
      (k < l.length → offset < r.2 + clusterSize fs)) v := by
  refine View.wp_iter (fun p v' => v' = v ∧ ∃ k ≤ l.length, p.2 = k * clusterSize fs ∧
      ChainAt fs v.fat p.1 (l.drop k) ∧ p.2 ≤ offset)
    (fun p _ => fs.totalClusters + 1 - p.2 / clusterSize fs) ?_
    ⟨rfl, 0, Nat.zero_le _, (Nat.zero_mul _).symm, h, Nat.zero_le _⟩ ?_
  · rintro ⟨c, pos⟩ _ ⟨rfl, k, hk, hpos, hchain, hle⟩
    simp only at hpos hchain hle
    have hcs := clusterSize_pos hl
    refine View.wp_ite (fun hc => ?_) (fun hc => View.wp_pure ?_)
    · obtain ⟨l', hdrop, hin, hrest⟩ := ChainAt.step hchain hc.2
      refine View.wp_bind (wp_next hl hin.lt) ?_
      rintro _ _ ⟨rfl, rfl⟩
      have hlen := congrArg List.length hdrop
      have hmax := h.length_le hl
      simp only [List.length_drop, List.length_cons] at hlen
      refine View.wp_pure ⟨⟨rfl, k + 1, by omega, ?_, ?_, hc.1⟩, ?_⟩
      · rw [hpos, Nat.add_mul, Nat.one_mul]
      · rw [drop_succ_of_drop hdrop]
        exact hrest
      · simp only
        rw [Nat.add_div_right _ hcs, hpos, Nat.mul_div_cancel _ hcs]
        omega
    · refine ⟨rfl, k, hk, hpos, hchain, hle, fun hlt => ?_⟩
      by_contra hge
      have hend : ¬c < fat32Eoc := fun hc' => hc ⟨by omega, hc'⟩
      have hnil := ChainAt.eq_nil hl hchain hend
      rw [List.drop_eq_nil_iff] at hnil
      omega
  · have := hl.lt_loopFuel
    simp only [Nat.zero_div]
    omega

/-- A byte of a buffer that starts `skip` bytes into a cluster. -/
lemma add_skip_add {pos skip p : ℕ} (base i : ℕ) (h : pos + skip ≤ p) :
    base + skip + (p - (pos + skip) + i) = base + (p + i - pos) := by omega

/-- Where the two loops over the clusters of a file stand: at the cluster number `k` of `l`, with
the current position in it as long as the window is not done. -/
structure LoopAt (fs : Fat32Fs) (fat : ℕ → ℕ) (l : List ℕ) (offset size : ℕ)
    (w : FileLoop) (k : ℕ) :
    Prop where
  pos : w.pos = k * clusterSize fs
  chain : ChainAt fs fat w.cluster (l.drop k)
  done : w.done ≤ size
  position : w.done < size → max w.pos offset = offset + w.done
  inside : w.done < size → offset + w.done < w.pos + clusterSize fs

/-- The loops start where the clusters before the window have been skipped. -/
lemma LoopAt.start {fat : ℕ → ℕ} {l : List ℕ} {offset size cluster pos k : ℕ} {out : Bytes}
    (hsize : offset + size ≤ l.length * clusterSize fs) (hpos : pos = k * clusterSize fs)
    (hchain : ChainAt fs fat cluster (l.drop k)) (hle : pos ≤ offset) (hk : k ≤ l.length)
    (hin : k < l.length → offset < pos + clusterSize fs) :
    LoopAt fs fat l offset size ⟨cluster, pos, 0, out⟩ k := by
  refine ⟨hpos, hchain, Nat.zero_le _, fun _ => max_eq_right hle, fun h => ?_⟩
  rcases Nat.lt_or_ge k l.length with hlt | hge
  · exact hin hlt
  · obtain rfl : k = l.length := Nat.le_antisymm hk hge
    simp only at h ⊢
    omega

/-- A loop that is not done is at a cluster of the chain. -/
lemma LoopAt.cluster_lt (hl : Layout fs) {fat : ℕ → ℕ} {l : List ℕ} {offset size k : ℕ}
    {w : FileLoop} (h : LoopAt fs fat l offset size w k)
    (hsize : offset + size ≤ l.length * clusterSize fs) (hlt : w.done < size) :
    w.cluster < fat32Eoc := by
  by_contra hge
  have hnil := ChainAt.eq_nil hl h.chain hge
  rw [List.drop_eq_nil_iff] at hnil
  have hmul : l.length * clusterSize fs ≤ k * clusterSize fs := Nat.mul_le_mul_right _ hnil
  have hpos := h.pos
  have hmax := h.position hlt
  omega

/-- The state of a loop after one more cluster. -/
lemma LoopAt.next {fat : ℕ → ℕ} {l l' : List ℕ} {offset size k : ℕ} {w w' : FileLoop}
    (h : LoopAt fs fat l offset size w k) (hlt : w.done < size)
    (hdrop : l.drop k = w.cluster :: l') (hchain : ChainAt fs fat w'.cluster l')
    (hpos : w'.pos = w.pos + clusterSize fs)
    (hdone : w'.done = min (w.pos + clusterSize fs) (offset + size) - offset) :
    LoopAt fs fat l offset size w' (k + 1) := by
  have hmax := h.position hlt
  have hin := h.inside hlt
  refine ⟨?_, ?_, ?_, ?_, ?_⟩
  · rw [hpos, h.pos, Nat.add_mul, Nat.one_mul]
  · rw [drop_succ_of_drop hdrop]
    exact hchain
  · omega
  · omega
  · omega

/-- A loop gets on in every cluster. -/
lemma LoopAt.done_lt {fat : ℕ → ℕ} {l : List ℕ} {offset size k : ℕ} {w : FileLoop}
    (h : LoopAt fs fat l offset size w k) (hlt : w.done < size) :
    w.done < min (w.pos + clusterSize fs) (offset + size) - offset := by
  have := h.position hlt
  have := h.inside hlt
  omega

/-- The address of the current position and of those after it in the same cluster. -/
lemma LoopAt.addr (hl : Layout fs) {fat : ℕ → ℕ} {l l' : List ℕ} {offset size k : ℕ} {w : FileLoop}
    (h : LoopAt fs fat l offset size w k) (hlt : w.done < size)
    (hdrop : l.drop k = w.cluster :: l') {i : ℕ}
    (hi : offset + w.done + i < w.pos + clusterSize fs) :
    fileAddr fs l (offset + w.done + i) =
      clusterOff fs w.cluster + (offset + w.done + i - w.pos) := by
  have hpos := h.pos
  have hmax := h.position hlt
  rw [hpos] at hi ⊢
  refine fileAddr_of_cluster hl (getElem?_of_drop hdrop) (by omega) ?_
  rwa [Nat.add_mul, Nat.one_mul]

/-- The 32-bit positions of sectors from `2 ^ 32 - 512` on are not taken for positions of the
window. -/
def NoWrap (fs : Fat32Fs) (offset size : ℕ) : Prop :=
  offset + size ≤ 2 ^ 32 - 512 ∨ offset < 2 ^ 32 ∧
    (2 * clusterSize fs ≤ offset ∨ clusterSize fs ≤ offset ∧ clusterSize fs ∣ 2 ^ 32)

lemma NoWrap.clusterSize_le {offset size : ℕ} (h : NoWrap fs offset size) :
    offset + size ≤ 2 ^ 32 - 512 ∨ offset < 2 ^ 32 ∧ clusterSize fs ≤ offset := by
  rcases h with h | ⟨hlt, h | h⟩
  · exact .inl h
  · exact .inr ⟨hlt, by omega⟩
  · exact .inr ⟨hlt, h.1⟩

/-- A sector from `2 ^ 32 - 512` on is passed over when it ends at most `offset` bytes after
`2 ^ 32`. -/
lemma skip_of_le {p offset : ℕ} (hdvd : 512 ∣ p) (hlo : 2 ^ 32 - 512 ≤ p)
    (hhi : p + 512 ≤ 2 ^ 32 + offset) (hoff : offset < 2 ^ 32) : u32 (u32 p + 512) ≤ offset := by
  obtain ⟨k, rfl⟩ := hdvd
  unfold u32
  omega

lemma LoopAt.pos_dvd {fat : ℕ → ℕ} {l : List ℕ} {offset size k : ℕ} {w : FileLoop}
    (h : LoopAt fs fat l offset size w k) (s : ℕ) : 512 ∣ w.pos + s * 512 := by
  rw [h.pos, clusterSize, ← Nat.mul_assoc, ← Nat.add_mul]
  exact Nat.dvd_mul_left _ _

/-- The sectors past the limit in a cluster that the loops read or write are passed over. -/
lemma LoopAt.hidden {fat : ℕ → ℕ} {l : List ℕ} {offset size k : ℕ}
    {w : FileLoop} (h : LoopAt fs fat l offset (visible offset size) w k)
    (hlt : w.done < visible offset size) (hwrap : NoWrap fs offset size) :
    offset + size ≤ 2 ^ 32 - 512 ∨ 512 ∣ w.pos ∧ Hidden fs.sectorsPerCluster w.pos offset := by
  rcases hwrap.clusterSize_le with hend | ⟨hoff, hcs⟩
  · exact .inl hend
  · refine .inr ⟨by simpa using h.pos_dvd 0, fun s hs hlo => ?_⟩
    have hmul : (s + 1) * 512 ≤ fs.sectorsPerCluster * 512 := Nat.mul_le_mul_right _ hs
    have hmax := h.position hlt
    have hpos : w.pos < 2 ^ 32 := by
      rw [visible] at hlt
      omega
    rw [clusterSize] at hcs
    exact skip_of_le (h.pos_dvd s) hlo (by omega) hoff

/-- Every sector of a cluster is passed over. -/
def AllHidden (fs : Fat32Fs) (pos offset : ℕ) : Prop :=
  ∀ s < fs.sectorsPerCluster, u32 (u32 (pos + s * 512) + 512) ≤ offset

/-- The loops come to nothing in the clusters past the limit. -/
lemma LoopAt.allHidden {fat : ℕ → ℕ} {l : List ℕ} {offset size k : ℕ} {w : FileLoop}
    (h : LoopAt fs fat l offset (visible offset size) w k) (hlt : w.done < visible offset size)
    (hwrap : NoWrap fs offset size) (hdone : min (w.pos + clusterSize fs)
      (offset + visible offset size) - offset < size)
    (hfin : visible offset size ≤ min (w.pos + clusterSize fs)
      (offset + visible offset size) - offset) :
    AllHidden fs (w.pos + clusterSize fs) offset := by
  have hmax := h.position hlt
  have hvis : offset + visible offset size = 2 ^ 32 - 512 := by
    rw [visible] at hlt hdone hfin ⊢
    omega
  rw [hvis] at hdone hfin
  intro s hs
  have hmul : (s + 1) * 512 ≤ fs.sectorsPerCluster * 512 := Nat.mul_le_mul_right _ hs
  have hdvd : 512 ∣ w.pos + clusterSize fs + s * 512 := by
    have := h.pos_dvd (fs.sectorsPerCluster + s)
    rwa [Nat.add_mul, ← Nat.add_assoc] at this
  rcases hwrap with hend | ⟨hoff, hcs | ⟨hcs, hpow⟩⟩
  · omega
  · rw [clusterSize] at *
    exact skip_of_le hdvd (by omega) (by omega) hoff
  · -- the cluster starts at `2 ^ 32` at the latest
    have hstart : w.pos + clusterSize fs ≤ 2 ^ 32 := by
      have hpos : w.pos < 2 ^ 32 := by omega
      rw [h.pos] at hpos ⊢
      obtain ⟨m, hm⟩ := hpow
      rw [hm, Nat.mul_comm k] at hpos
      have hkm : k < m := Nat.lt_of_mul_lt_mul_left hpos
      have := Nat.mul_le_mul_left (clusterSize fs) hkm
      rw [hm, Nat.mul_comm k, ← Nat.mul_succ]
      exact this
    rw [clusterSize] at *
    exact skip_of_le hdvd (by omega) (by omega) hoff

/-- Where the two loops stand when they only get to the visible part of the window. -/
structure VisibleAt (fs : Fat32Fs) (fat : ℕ → ℕ) (l : List ℕ) (offset size : ℕ)
    (w : FileLoop) (k : ℕ) :
    Prop extends LoopAt fs fat l offset (visible offset size) w k where
  past : w.done = visible offset size → w.done < size → AllHidden fs w.pos offset

/-- The loops start where the clusters before the window have been skipped. -/
lemma VisibleAt.start (hl : Layout fs) {fat : ℕ → ℕ} {l : List ℕ}
    {offset size cluster pos k : ℕ} {out : Bytes} (hwrap : NoWrap fs offset size)
    (hsize : offset + visible offset size ≤ l.length * clusterSize fs)
    (hpos : pos = k * clusterSize fs) (hchain : ChainAt fs fat cluster (l.drop k))
    (hle : pos ≤ offset)
    (hk : k ≤ l.length) (hin : k < l.length → offset < pos + clusterSize fs) :
    VisibleAt fs fat l offset size ⟨cluster, pos, 0, out⟩ k := by
  have hstart : LoopAt fs fat l offset (visible offset size) ⟨cluster, pos, 0, out⟩ k :=
    LoopAt.start hsize hpos hchain hle hk hin
  refine ⟨hstart, fun hdone hlt s hs => ?_⟩
  simp only at hdone hlt ⊢
  have hge : 2 ^ 32 - 512 ≤ offset := by
    rw [visible] at hdone
    omega
  have hdvd : 512 ∣ pos + s * 512 := hstart.pos_dvd s
  rcases hwrap.clusterSize_le with hend | ⟨hoff, -⟩
  · omega
  rcases Nat.lt_or_ge (pos + s * 512) (2 ^ 32 - 512) with hlo | hlo
  · have hend : pos + (s + 1) * 512 ≤ 2 ^ 32 - 512 := by
      obtain ⟨m, hm⟩ := hdvd
      omega
    unfold u32
    omega
  · have hmul : (s + 1) * 512 ≤ fs.sectorsPerCluster * 512 := Nat.mul_le_mul_right _ hs
    have hspc := hl.spc_le
    unfold fat32MaxClusterSectors at hspc
    exact skip_of_le hdvd hlo (by omega) hoff

/-- The loop variables `w'` are those after one more cluster than `w`. -/
structure NextCluster (fs : Fat32Fs) (fat : ℕ → ℕ) (l : List ℕ) (offset size : ℕ) (w w' : FileLoop)
    (k : ℕ) : Prop where
  loopAt : LoopAt fs fat l offset (visible offset size) w' (k + 1)
  pos : w'.pos = w.pos + clusterSize fs
  done : w'.done = min (w.pos + clusterSize fs) (offset + visible offset size) - offset
  done_lt : w.done < w'.done

/-- The state of a loop after one more cluster. -/
lemma VisibleAt.next {fat : ℕ → ℕ} {l : List ℕ} {offset size k : ℕ} {w w' : FileLoop}
    (h : VisibleAt fs fat l offset size w k) (hwrap : NoWrap fs offset size)
    (hlt : w.done < visible offset size) (hnext : NextCluster fs fat l offset size w w' k) :
    VisibleAt fs fat l offset size w' (k + 1) := by
  refine ⟨hnext.loopAt, fun hfin hless => ?_⟩
  rw [hnext.pos]
  rw [hnext.done] at hless hfin
  exact h.toLoopAt.allHidden hlt hwrap hless hfin.ge

/-- One round of the loop of `fat32_read`. -/
def readRound (fs : Fat32Fs) (offset size : ℕ) (v : FileLoop) :
    Program Fat32State (FileLoop ⊕ ℤ × Bytes) := do
  if v.done < size ∧ v.cluster < fat32Eoc then
    match sectorWindow fs.sectorsPerCluster v.pos offset size fs.sectorsPerCluster none with
    | none => return .inr (int32 v.done, v.out)
    | some (firstS, lastS) =>
      let run := lastS - firstS + 1
      match ← io (blkRead fs.dev (clusterToLba fs v.cluster + firstS) run) with
      | none => return .inr (if 0 < v.done then int32 v.done else -1, v.out)
      | some buf =>
        let r := copyOut firstS v.pos offset size buf run firstS (v.out, v.done)
        return .inl ⟨← fat32NextCluster fs v.cluster, v.pos + clusterSize fs, r.2, r.1⟩
  else return .inr (int32 v.done, v.out)

lemma readLoop_eq (fs : Fat32Fs) (offset size : ℕ) (w : FileLoop) :
    readLoop fs offset size w = iter (readRound fs offset size) loopFuel w := rfl

/-- A round that is not the last one copies what is visible in one cluster. -/
lemma wp_readRound (hl : Layout fs) {l : List ℕ} {offset size k : ℕ} {w : FileLoop}
    (hsize : offset + visible offset size ≤ l.length * clusterSize fs)
    (hw : LoopAt fs v.fat l offset (visible offset size) w k) (hlt : w.done < visible offset size)
    (hidden : offset + size ≤ 2 ^ 32 - 512 ∨
      512 ∣ w.pos ∧ Hidden fs.sectorsPerCluster w.pos offset) :
    (fat32View fs).wp (readRound fs offset size w) (fun r v' => v' = v ∧ ∃ w', r = .inl w' ∧
      NextCluster fs v.fat l offset size w w' k ∧
      w'.out = Bytes.blit w.out w.done
        (Bytes.shift (fun j => v.data (fileAddr fs l (offset + j))) w.done)
        (w'.done - w.done)) v := by
  have hspc := hl.spc_le
  unfold fat32MaxClusterSectors at hspc
  have hvis : visible offset size ≤ size := by
    rw [visible]
    omega
  have hc := hw.cluster_lt hl hsize hlt
  rw [readRound, if_pos ⟨hlt.trans_le hvis, hc⟩]
  obtain ⟨l', hdrop, hrange, hrest⟩ := ChainAt.step hw.chain hc
  have hmax := hw.position hlt
  have hin := hw.inside hlt
  obtain ⟨a, b, hwin, hab, hb, hnext, hstart, hlow, hfrom, hto, hlast⟩ := exists_window hidden
    (hmax ▸ Nat.add_lt_add_left hlt offset : max w.pos offset < offset + visible offset size)
    (hmax ▸ hin : max w.pos offset < w.pos + fs.sectorsPerCluster * 512)
  rw [hwin, clusterToLba_eq hl hrange]
  dsimp only
  rw [Nat.add_assoc]
  refine View.wp_bind (wp_readData _ (b - a + 1) (by omega)) ?_
  rintro _ v ⟨rfl, rfl⟩
  refine View.wp_bind (wp_next hl hrange.lt) ?_
  rintro _ v ⟨rfl, rfl⟩
  refine View.wp_pure ?_
  have hcopy := copyOut_eq (Bytes.clip ((b - a + 1) * 512) (Bytes.shift v.data
    (((w.cluster - 2) * fs.sectorsPerCluster + a) * 512))) hlow le_rfl hnext w.out
  rw [hfrom, hto, hmax, Nat.add_sub_cancel_left] at hcopy
  rw [hcopy]
  have hgot := hw.done_lt hlt
  refine ⟨rfl, _, rfl, ⟨hw.next hlt hdrop hrest rfl rfl, rfl, rfl, hgot⟩, ?_⟩
  simp only
  rw [clusterSize] at hgot
  have hsum : min (w.pos + fs.sectorsPerCluster * 512) (offset + visible offset size) -
      (offset + w.done) = min (w.pos + fs.sectorsPerCluster * 512) (offset + visible offset size) -
      offset - w.done := by omega
  rw [← hsum]
  refine Bytes.blit_congr fun i hi => ?_
  have haddr := hw.addr hl hlt hdrop (i := i) (by rw [clusterSize]; omega)
  rw [Bytes.shift, Bytes.clip_of_lt, Bytes.shift, Bytes.shift, ← Nat.add_assoc offset, haddr,
    clusterOff_eq]
  · have hle : w.pos + a * 512 ≤ offset + w.done := hmax ▸ hstart
    rw [Nat.add_mul, add_skip_add _ i hle]
  · have hrun : (b - a + 1) * 512 = (b + 1) * 512 - a * 512 := by
      rw [← Nat.sub_mul]
      congr 1
      omega
    omega

/-- The loop of `fat32_read` copies what is visible of the window to the caller's buffer. -/
lemma wp_readLoop (hl : Layout fs) {l : List ℕ} {offset size k : ℕ} {w : FileLoop}
    (hwrap : NoWrap fs offset size)
    (hsize : offset + visible offset size ≤ l.length * clusterSize fs)
    (hw : VisibleAt fs v.fat l offset size w k) (h0 : w.done = 0) :
    (fat32View fs).wp (readLoop fs offset size w) (fun r v' => v' = v ∧
      r = (int32 (visible offset size), Bytes.blit w.out 0
        (fun j => v.data (fileAddr fs l (offset + j))) (visible offset size))) v := by
  rw [readLoop_eq]
  refine View.wp_iter (fun w' v' => v' = v ∧ (∃ k, VisibleAt fs v.fat l offset size w' k) ∧
      w'.out = Bytes.blit w.out 0 (fun j => v.data (fileAddr fs l (offset + j))) w'.done)
    (fun w' _ => visible offset size - w'.done) ?_
    ⟨rfl, ⟨k, hw⟩, by rw [h0, Bytes.blit_zero_len]⟩ ?_
  · rintro w' v ⟨rfl, ⟨k, hw'⟩, hout⟩
    rcases Nat.lt_or_eq_of_le hw'.done with hlt | heq
    · have hround := wp_readRound hl hsize hw'.toLoopAt hlt (hw'.toLoopAt.hidden hlt hwrap)
      refine View.wp_mono hround ?_
      rintro _ v ⟨rfl, w'', rfl, hw'', hout'⟩
      have hgot := hw''.done_lt
      refine ⟨⟨rfl, ⟨k + 1, hw'.next hwrap hlt hw''⟩, ?_⟩, Nat.sub_lt_sub_left hlt hgot⟩
      have hsum : w''.done = w'.done + (w''.done - w'.done) := by omega
      rw [hout', hout, hsum, ← Bytes.blit_append, Nat.zero_add, ← hsum]
    · have hres : (int32 w'.done, w'.out) = (int32 (visible offset size), Bytes.blit w.out 0
          (fun j => v.data (fileAddr fs l (offset + j))) (visible offset size)) := by
        rw [hout, heq]
      refine View.wp_ite (fun hc => ?_) fun _ => View.wp_pure ⟨rfl, hres⟩
      rw [sectorWindow_none (hw'.past heq hc.1) le_rfl]
      exact View.wp_pure ⟨rfl, hres⟩
  · have hvis : visible offset size ≤ 2 ^ 32 - 512 := by
      rw [visible]
      omega
    unfold loopFuel
    omega

/-- Different positions of a file have different addresses. -/
lemma fileAddr_inj (hl : Layout fs) {l : List ℕ} (hin : ∀ c ∈ l, InRange fs c) (hnd : l.Nodup)
    {q q' : ℕ} (hq : q < l.length * clusterSize fs) (hq' : q' < l.length * clusterSize fs)
    (h : fileAddr fs l q = fileAddr fs l q') : q = q' := by
  have hpos := clusterSize_pos hl
  have hk : q / clusterSize fs < l.length := Nat.div_lt_of_lt_mul (by rwa [Nat.mul_comm])
  have hk' : q' / clusterSize fs < l.length := Nat.div_lt_of_lt_mul (by rwa [Nat.mul_comm])
  have hmod := Nat.mod_lt q hpos
  have hmod' := Nat.mod_lt q' hpos
  rw [fileAddr, fileAddr, List.getD_eq_getElem?_getD, List.getD_eq_getElem?_getD,
    List.getElem?_eq_getElem hk, List.getElem?_eq_getElem hk', Option.getD_some,
    Option.getD_some] at h
  -- the two addresses lie in the same cluster, which the chain has only once
  have hcluster : l[q / clusterSize fs] = l[q' / clusterSize fs] :=
    InCluster.unique (hin _ (List.getElem_mem hk)).1 (hin _ (List.getElem_mem hk')).1
      ⟨Nat.le_add_right _ _, Nat.add_lt_add_left hmod _⟩
      ⟨h ▸ Nat.le_add_right _ _, h ▸ Nat.add_lt_add_left hmod' _⟩
  have hidx : q / clusterSize fs = q' / clusterSize fs := (hnd.getElem_inj_iff).mp hcluster
  rw [hcluster, Nat.add_left_cancel_iff] at h
  rw [← Nat.div_add_mod q (clusterSize fs), ← Nat.div_add_mod q' (clusterSize fs), hidx, h]

/-- The data area `d'` is `d` with the first `len` bytes of `input` stored at position `offset` of
the file with the clusters `l`. -/
structure Stored (fs : Fat32Fs) (l : List ℕ) (offset len : ℕ) (input d d' : Bytes) : Prop where
  window : ∀ j < len, d' (fileAddr fs l (offset + j)) = input j
  other : ∀ i, (∀ j < len, i ≠ fileAddr fs l (offset + j)) → d' i = d i

lemma Stored.zero (l : List ℕ) (offset : ℕ) (input d : Bytes) : Stored fs l offset 0 input d d :=
  ⟨fun j hj => absurd hj (Nat.not_lt_zero j), fun _ _ => rfl⟩

/-- Storing one more piece, which lies in one cluster. -/
lemma Stored.piece (hl : Layout fs) {l : List ℕ} (hin : ∀ c ∈ l, InRange fs c) (hnd : l.Nodup)
    {offset done len start : ℕ} {input d d' : Bytes} (h : Stored fs l offset done input d d')
    (hsize : offset + (done + len) ≤ l.length * clusterSize fs)
    (haddr : ∀ j < len, fileAddr fs l (offset + done + j) = start + j) :
    Stored fs l offset (done + len) input d
      (Bytes.blit d' start (Bytes.shift input done) len) := by
  refine ⟨fun j hj => ?_, fun i hi => ?_⟩
  · rcases Nat.lt_or_ge j done with hlt | hge
    · rw [Bytes.blit_of_not_mem, h.window j hlt]
      -- otherwise the position would be one of those stored now
      by_contra hmem
      have hk := haddr (fileAddr fs l (offset + j) - start) (by omega)
      have hsame : offset + done + (fileAddr fs l (offset + j) - start) = offset + j :=
        fileAddr_inj hl hin hnd (by omega) (by omega) (by omega)
      omega
    · obtain ⟨k, rfl⟩ := Nat.exists_eq_add_of_le hge
      have hk := haddr k (by omega)
      rw [← Nat.add_assoc, hk, Bytes.blit_of_mem (by omega), Nat.add_sub_cancel_left, Bytes.shift]
  · rw [Bytes.blit_of_not_mem, h.other i fun j hj => hi j (by omega)]
    by_contra hmem
    refine hi (done + (i - start)) (by omega) ?_
    rw [← Nat.add_assoc, haddr (i - start) (by omega)]
    omega

/-- One round of the loop of `fat32_write`. -/
def writeRound (fs : Fat32Fs) (offset size : ℕ) (input : Bytes) (v : FileLoop) :
    Program Fat32State (FileLoop ⊕ ℕ) := do
  if v.done < size ∧ v.cluster < fat32Eoc then
    match sectorWindow fs.sectorsPerCluster v.pos offset size fs.sectorsPerCluster none with
    | none => return .inr v.done
    | some (firstS, lastS) =>
      let run := lastS - firstS + 1
      let lba := clusterToLba fs v.cluster + firstS
      match ← io (blkRead fs.dev lba run) with
      | none => return .inr v.done
      | some buf =>
        let r := copyIn firstS v.pos offset size input run firstS (buf, v.done)
        if ← writeData fs.dev lba run r.1 then
          return .inl ⟨← fat32NextCluster fs v.cluster, v.pos + clusterSize fs, r.2, v.out⟩
        else return .inr r.2
  else return .inr v.done

lemma writeLoop_eq (fs : Fat32Fs) (offset size : ℕ) (input : Bytes) (w : FileLoop) :
    writeLoop fs offset size input w = iter (writeRound fs offset size input) loopFuel w := rfl

/-- A round that is not the last one stores what is visible in one cluster. -/
lemma wp_writeRound (hl : Layout fs) {l : List ℕ} {offset size k : ℕ} {w : FileLoop} (input : Bytes)
    (hsize : offset + visible offset size ≤ l.length * clusterSize fs)
    (hw : LoopAt fs v.fat l offset (visible offset size) w k) (hlt : w.done < visible offset size)
    (hidden : offset + size ≤ 2 ^ 32 - 512 ∨
      512 ∣ w.pos ∧ Hidden fs.sectorsPerCluster w.pos offset) :
    (fat32View fs).wp (writeRound fs offset size input w) (fun r v' => ∃ w' start, r = .inl w' ∧
      NextCluster fs v.fat l offset size w w' k ∧
      (∀ j < w'.done - w.done, fileAddr fs l (offset + w.done + j) = start + j) ∧
      v' = { v with data :=
        (Bytes.blit v.data start (Bytes.shift input w.done) (w'.done - w.done)) }) v := by
  have hspc := hl.spc_le
  unfold fat32MaxClusterSectors at hspc
  have hvis : visible offset size ≤ size := by
    rw [visible]
    omega
  have hc := hw.cluster_lt hl hsize hlt
  rw [writeRound, if_pos ⟨hlt.trans_le hvis, hc⟩]
  obtain ⟨l', hdrop, hrange, hrest⟩ := ChainAt.step hw.chain hc
  have hmax := hw.position hlt
  have hin := hw.inside hlt
  obtain ⟨a, b, hwin, hab, hb, hnext, hstart, hlow, hfrom, hto, hlast⟩ := exists_window hidden
    (hmax ▸ Nat.add_lt_add_left hlt offset : max w.pos offset < offset + visible offset size)
    (hmax ▸ hin : max w.pos offset < w.pos + fs.sectorsPerCluster * 512)
  rw [hwin, clusterToLba_eq hl hrange]
  dsimp only
  rw [Nat.add_assoc]
  refine View.wp_bind (wp_readData _ (b - a + 1) (by omega)) ?_
  rintro _ v ⟨rfl, rfl⟩
  have hcopy := copyIn_eq input hlow le_rfl hnext (Bytes.clip ((b - a + 1) * 512)
    (Bytes.shift v.data (((w.cluster - 2) * fs.sectorsPerCluster + a) * 512)))
  rw [hfrom, hto, hmax, Nat.add_sub_cancel_left] at hcopy
  dsimp only
  rw [hcopy]
  refine View.wp_bind (wp_writeData hl _ (b - a + 1) (by omega) _) ?_
  rintro _ _ ⟨rfl, rfl⟩
  refine View.wp_ite (fun _ => ?_) (fun h => absurd rfl h)
  refine View.wp_bind (wp_next hl hrange.lt) ?_
  rintro _ _ ⟨rfl, rfl⟩
  have hgot := hw.done_lt hlt
  refine View.wp_pure ⟨_, ((w.cluster - 2) * fs.sectorsPerCluster + a) * 512 +
    (offset + w.done - (w.pos + a * 512)), rfl, ⟨hw.next hlt hdrop hrest rfl rfl, rfl, rfl, hgot⟩,
    fun j hj => ?_, ?_⟩
  · have hin' : offset + w.done + j < w.pos + clusterSize fs := by
      simp only at hj
      rw [clusterSize]
      omega
    rw [hw.addr hl hlt hdrop hin', clusterOff_eq, Nat.add_mul]
    have hskip := add_skip_add ((w.cluster - 2) * fs.sectorsPerCluster * 512) j
      (hmax ▸ hstart : w.pos + a * 512 ≤ offset + w.done)
    rw [← hskip, Nat.add_assoc, Nat.add_assoc, Nat.add_assoc]
  · rw [clusterSize] at hgot
    have hsum : min (w.pos + fs.sectorsPerCluster * 512) (offset + visible offset size) -
        (offset + w.done) = min (w.pos + fs.sectorsPerCluster * 512)
        (offset + visible offset size) -
        offset - w.done := by omega
    have hrun : (b - a + 1) * 512 = (b + 1) * 512 - a * 512 := by
      rw [← Nat.sub_mul]
      congr 1
      omega
    rw [Bytes.blit_readModify (by omega), hsum]

/-- The loop of `fat32_write` stores what is visible of the window. -/
lemma wp_writeLoop (hl : Layout fs) {l : List ℕ} {offset size k : ℕ} {w : FileLoop} (input : Bytes)
    (hwrap : NoWrap fs offset size)
    (hsize : offset + visible offset size ≤ l.length * clusterSize fs)
    (hin : ∀ c ∈ l, InRange fs c) (hnd : l.Nodup)
    (hw : VisibleAt fs v.fat l offset size w k) (h0 : w.done = 0) :
    (fat32View fs).wp (writeLoop fs offset size input w) (fun r v' => r = visible offset size ∧
      ∃ d, v' = { v with data := d } ∧
        Stored fs l offset (visible offset size) input v.data d) v := by
  rw [writeLoop_eq]
  refine View.wp_iter (fun w' v' => (∃ k, VisibleAt fs v.fat l offset size w' k) ∧
      ∃ d, v' = { v with data := d } ∧ Stored fs l offset w'.done input v.data d)
    (fun w' _ => visible offset size - w'.done) ?_
    ⟨⟨k, hw⟩, v.data, rfl, by rw [h0]; exact Stored.zero l offset input v.data⟩ ?_
  · rintro w' _ ⟨⟨k, hw'⟩, d, rfl, hd⟩
    rcases Nat.lt_or_eq_of_le hw'.done with hlt | heq
    · have hround := wp_writeRound (v := { v with data := d }) hl input hsize hw'.toLoopAt hlt
        (hw'.toLoopAt.hidden hlt hwrap)
      refine View.wp_mono hround ?_
      rintro _ _ ⟨w'', start, rfl, hw'', haddr, rfl⟩
      have hgot := hw''.done_lt
      refine ⟨⟨⟨k + 1, hw'.next hwrap hlt hw''⟩, _, rfl, ?_⟩, Nat.sub_lt_sub_left hlt hgot⟩
      have hsum : w''.done = w'.done + (w''.done - w'.done) := by omega
      have hle := hw''.loopAt.done
      have hpiece : Stored fs l offset (w'.done + (w''.done - w'.done)) input v.data _ :=
        hd.piece hl hin hnd (by omega) haddr
      rwa [← hsum] at hpiece
    · refine View.wp_ite (fun hc => ?_) fun _ => View.wp_pure ⟨heq, d, rfl, heq ▸ hd⟩
      rw [sectorWindow_none (hw'.past heq hc.1) le_rfl]
      exact View.wp_pure ⟨heq, d, rfl, heq ▸ hd⟩
  · have hvis : visible offset size ≤ 2 ^ 32 - 512 := by
      rw [visible]
      omega
    unfold loopFuel
    omega

/-! ## Reading and writing a file -/

/-- The clusters `l` of a file with the first cluster `first`, which is 0 for a file without any. -/
def FileChain (fs : Fat32Fs) (fat : ℕ → ℕ) (first : ℕ) (l : List ℕ) : Prop :=
  first = 0 ∧ l = [] ∨ l ≠ [] ∧ ChainAt fs fat first l

/-- The number of bytes of a file among the `size` bytes from `offset` on. -/
def inFile (nd : Fat32Node) (offset size : ℕ) : ℕ := min size (nd.size - offset)

/-- `fat32_read` returns what is visible of the window that lies in the file. -/
lemma wp_read_visible (hl : Layout fs) {node offset size : ℕ} (out : Bytes) {l : List ℕ}
    (hfile : (v.nodes node).type = .file) (hfs : (v.nodes node).fi.fs = fs)
    (hchain : FileChain fs v.fat (v.nodes node).inode l)
    (hcover : (v.nodes node).size ≤ l.length * clusterSize fs)
    (hmax : (v.nodes node).size < 2 ^ 32)
    (hwrap : offset < (v.nodes node).size →
      NoWrap fs offset (inFile (v.nodes node) offset size)) :
    (fat32View fs).wp (fat32Read node offset size out) (fun r v' => v' = v ∧
      r = (int32 (visible offset (inFile (v.nodes node) offset size)),
        Bytes.blit out 0 (fun j => v.data (fileAddr fs l (offset + j)))
          (visible offset (inFile (v.nodes node) offset size)))) v := by
  refine View.wp_get fun s _ hs => ?_
  have hnodes : s.nodePool = v.nodes := congrArg Volume.nodes hs
  simp only [hnodes, hfile, VfsType.isFile, Bool.not_true, Bool.false_eq_true, if_false, hfs]
  refine View.wp_ite (fun hge => View.wp_pure ?_) (fun hlt => ?_)
  · have hzero : visible offset (inFile (v.nodes node) offset size) = 0 := by
      rw [visible, inFile]
      omega
    rw [hzero, Bytes.blit_zero_len]
    exact ⟨rfl, rfl⟩
  · have hn : (if (v.nodes node).size < offset + size then u32 ((v.nodes node).size - offset)
        else size) = inFile (v.nodes node) offset size := by
      have hu : u32 ((v.nodes node).size - offset) = (v.nodes node).size - offset :=
        Nat.mod_eq_of_lt (by omega)
      rw [hu, inFile]
      split_ifs <;> omega
    rw [hn]
    have hsize : offset + visible offset (inFile (v.nodes node) offset size) ≤
        l.length * clusterSize fs := by
      rw [visible, inFile]
      omega
    rcases hchain with ⟨-, rfl⟩ | ⟨-, hchain⟩
    · simp only [List.length_nil, Nat.zero_mul] at hcover
      omega
    have hwrap := hwrap (Nat.lt_of_not_le hlt)
    refine View.wp_bind (wp_skipClusters hl hchain) ?_
    rintro ⟨cluster, pos⟩ v ⟨rfl, k, hk, hpos, hdrop, hle, hin⟩
    exact wp_readLoop hl hwrap hsize (VisibleAt.start hl hwrap hsize hpos hdrop hle hk hin) rfl

/-- `fat32_read` returns the bytes of the window that lie in the file. -/
lemma wp_read (hl : Layout fs) {node offset size : ℕ} {out : Bytes} {l : List ℕ}
    (hfile : (v.nodes node).type = .file) (hfs : (v.nodes node).fi.fs = fs)
    (hchain : FileChain fs v.fat (v.nodes node).inode l)
    (hcover : (v.nodes node).size ≤ l.length * clusterSize fs)
    (hmax : (v.nodes node).size ≤ 2 ^ 32 - 512) :
    (fat32View fs).wp (fat32Read node offset size out) (fun r v' => v' = v ∧
      r = (int32 (min size ((v.nodes node).size - offset)),
        Bytes.blit out 0 (fun j => v.data (fileAddr fs l (offset + j)))
          (min size ((v.nodes node).size - offset)))) v := by
  have hend : offset < (v.nodes node).size →
      offset + inFile (v.nodes node) offset size ≤ 2 ^ 32 - 512 := by
    rw [inFile]
    omega
  have hvis : visible offset (inFile (v.nodes node) offset size) =
      min size ((v.nodes node).size - offset) := by
    rw [visible, inFile]
    omega
  have hread := wp_read_visible hl out hfile hfs hchain hcover (by omega)
    fun hlt => .inl (hend hlt)
  rwa [hvis] at hread

/-- Bringing an entry up to date in its sector and writing the sector back. -/
lemma blit_deSetClusterSize (d : Bytes) (a off cluster size : ℕ) (h : off + 32 ≤ 512) :
    Bytes.blit d a (deSetClusterSize (Bytes.clip 512 (Bytes.shift d a)) off cluster size) 512 =
      deSetClusterSize d (a + off) cluster size := by
  simp only [deSetClusterSize, Bytes.put16, Bytes.put32]
  rw [Bytes.blit_inside (by omega), Bytes.blit_inside (by omega), Bytes.blit_inside (by omega),
    Bytes.blit_clip_shift]
  simp only [Nat.add_assoc]

/-- The address of the directory entry of a node in the data area. -/
def slotAddr (fs : Fat32Fs) (nd : Fat32Node) : ℕ :=
  (nd.fi.direntLba - fs.dataStartLba) * 512 + nd.fi.direntOff

/-- The directory entry of a node is somewhere in the data area. -/
structure HasSlot (fs : Fat32Fs) (nd : Fat32Node) : Prop where
  dirent : nd.fi.hasDirent = true
  lba : fs.dataStartLba ≤ nd.fi.direntLba
  off : nd.fi.direntOff + 32 ≤ 512

/-- `fat32_flush_dirent` stores first cluster and size of a node in its directory entry. -/
lemma wp_flushDirent (hl : Layout fs) {node : ℕ} (hfs : (v.nodes node).fi.fs = fs)
    (hslot : HasSlot fs (v.nodes node)) :
    (fat32View fs).wp (fat32FlushDirent node) (fun ok v' => ok = true ∧
      v' = { v with data := (deSetClusterSize v.data (slotAddr fs (v.nodes node))
        (v.nodes node).inode (v.nodes node).size) }) v := by
  refine View.wp_get fun s _ hs => ?_
  have hnodes : s.nodePool = v.nodes := congrArg Volume.nodes hs
  simp only [hnodes, hslot.dirent, Bool.not_true, Bool.false_eq_true, if_false, hfs]
  have hlba : (v.nodes node).fi.direntLba =
      fs.dataStartLba + ((v.nodes node).fi.direntLba - fs.dataStartLba) := by
    have := hslot.lba
    omega
  rw [hlba]
  refine View.wp_bind (wp_readData _ 1 (by omega)) ?_
  rintro _ v ⟨rfl, rfl⟩
  refine View.wp_mono (wp_writeData hl _ 1 (by omega) _) ?_
  rintro _ _ ⟨rfl, rfl⟩
  refine ⟨rfl, ?_⟩
  rw [Nat.one_mul, blit_deSetClusterSize _ _ _ _ _ hslot.off, slotAddr]

/-- A file with clusters has a first one, which is not 0. -/
lemma FileChain.inode_eq_zero {fat : ℕ → ℕ} {first : ℕ} {l : List ℕ}
    (h : FileChain fs fat first l) :
    first = 0 ↔ l = [] := by
  rcases h with ⟨h0, hl⟩ | ⟨hne, hchain⟩
  · exact iff_of_true h0 hl
  · refine iff_of_false (fun h0 => ?_) hne
    cases l with
    | nil => exact hne rfl
    | cons a l => exact absurd hchain.2.1.1 (by rw [hchain.1, h0]; omega)

/-- The first cluster of a file, allocated if there is none. -/
lemma wp_ensureFirst (hl : Layout fs) {node : ℕ} {l : List ℕ}
    (hchain : FileChain fs v.fat (v.nodes node).inode l) :
    (fat32View fs).wp (ensureFirstCluster fs node) (fun first v' =>
      (first = 0 ∧ v' = v ∧ Full fs v) ∨
      ∃ new fat, (l ≠ [] → new = [] ∧ fat = v.fat ∧ first = (v.nodes node).inode) ∧ first ≠ 0 ∧
        l ++ new ≠ [] ∧ ChainAt fs fat first (l ++ new) ∧ (∀ c ∈ new, v.fat c = 0) ∧
        (∀ c, c ∉ new → fat c = v.fat c) ∧
        v' = { v with
          fat := fat, nodes := Function.update v.nodes node { v.nodes node with inode := first } })
          v := by
  refine View.wp_get fun s _ hs => ?_
  have hnodes : s.nodePool = v.nodes := congrArg Volume.nodes hs
  simp only [hnodes]
  refine View.wp_ite (fun h0 => ?_) (fun h0 => View.wp_pure (.inr ?_))
  · have hnil := hchain.inode_eq_zero.mp h0
    refine View.wp_bind (wp_allocCluster hl) ?_
    rintro first v' (⟨rfl, rfl, hfull⟩ | ⟨hin, hfree, rfl⟩)
    · exact View.wp_ite (fun _ => View.wp_pure (.inl ⟨rfl, rfl, hfull⟩)) (fun h => absurd rfl h)
    · have hne : first ≠ 0 := by
        have := hin.1
        omega
      refine View.wp_ite (fun h => absurd h hne) (fun _ => ?_)
      refine View.wp_bind (wp_modifyNode node _) ?_
      rintro _ _ rfl
      refine View.wp_pure (.inr ⟨[first], _, fun h => absurd hnil h, hne, by simp, ?_, ?_, ?_, rfl⟩)
      · rw [hnil]
        refine ⟨rfl, hin, ?_⟩
        change Ends (Function.update v.fat first fat32Eoc first)
        rw [Function.update_self]
        exact le_rfl
      · rintro c hc
        rw [List.mem_singleton.mp hc]
        exact hfree
      · exact fun c hc => Function.update_of_ne (fun h => hc (List.mem_singleton.mpr h)) _ _
  · have hne : l ≠ [] := fun h => h0 (hchain.inode_eq_zero.mpr h)
    rcases hchain with ⟨h0', -⟩ | ⟨-, hchain⟩
    · exact absurd h0' h0
    · refine ⟨[], v.fat, fun _ => ⟨rfl, rfl, rfl⟩, h0, by simpa using hne, by simpa using hchain,
        fun _ h => absurd h List.not_mem_nil, fun _ _ => rfl, ?_⟩
      rw [Function.update_eq_self]

/-- What a write of `n` bytes at `offset` through `node` makes of a volume: the clusters `new` are
appended to the clusters `l` of the file, which then starts with `first`. -/
structure FileWritten (fs : Fat32Fs) (v v' : Volume) (node : ℕ) (l new : List ℕ)
    (first offset n : ℕ) (input : Bytes) : Prop where
  chain : ChainAt fs v'.fat first (l ++ new)
  first_eq : l ≠ [] → first = (v.nodes node).inode
  nonempty : l ++ new ≠ []
  free : ∀ c ∈ new, v.fat c = 0
  fat : ∀ c, c ∉ l → c ∉ new → v'.fat c = v.fat c
  cover : offset + n ≤ (l ++ new).length * clusterSize fs
  nodes : v'.nodes = Function.update v.nodes node
    { v.nodes node with inode := first, size := max (v.nodes node).size (offset + n) }
  used : v'.used = v.used
  data : ∃ d, v'.data = deSetClusterSize d (slotAddr fs (v.nodes node)) first
      (max (v.nodes node).size (offset + n)) ∧
    (∀ j < n, d (fileAddr fs (l ++ new) (offset + j)) = input j) ∧
    ∀ i, (∀ c ∈ new, ¬InCluster fs c i) → (∀ j < n, i ≠ fileAddr fs (l ++ new) (offset + j)) →
      d i = v.data i

/-- The part of `fat32_write` that runs once the clusters are there. -/
lemma wp_writeWindow (hl : Layout fs) {node offset n first : ℕ} {l : List ℕ} (input : Bytes)
    (hfs : (v.nodes node).fi.fs = fs) (hslot : HasSlot fs (v.nodes node))
    (hchain : ChainAt fs v.fat first l) (hwrap : NoWrap fs offset n)
    (hsize : offset + visible offset n ≤ l.length * clusterSize fs) :
    (fat32View fs).wp (writeWindow fs node offset n first input) (fun r v' =>
      (visible offset n = 0 ∧ r = -1 ∧ ∃ d, v' = { v with data := d }) ∨
      0 < visible offset n ∧ r = int32 (visible offset n) ∧
      ∃ d, Stored fs l offset (visible offset n) input v.data d ∧
        v' = { v with
          nodes := Function.update v.nodes node
            { v.nodes node with size := max (v.nodes node).size (offset + visible offset n) }
          data := (deSetClusterSize d (slotAddr fs (v.nodes node)) (v.nodes node).inode
            (max (v.nodes node).size (offset + visible offset n))) }) v := by
  refine View.wp_bind (wp_skipClusters hl hchain) ?_
  rintro ⟨cluster, pos⟩ v ⟨rfl, k, hk, hpos, hdrop, hle, hin⟩
  refine View.wp_bind (wp_writeLoop hl input hwrap hsize
    (fun c hc => hchain.inside_of_mem hc) (ChainAt.nodup hl hchain)
    (VisibleAt.start hl hwrap hsize hpos hdrop hle hk hin) rfl) ?_
  rintro _ _ ⟨rfl, d, rfl, hd⟩
  refine View.wp_ite (fun h0 => View.wp_pure (.inl ⟨h0, rfl, d, rfl⟩)) (fun hne => ?_)
  refine View.wp_bind (wp_modifyNode node _) ?_
  rintro _ _ rfl
  refine View.wp_bind (wp_flushDirent hl ?_ ?_) ?_
  · simpa only [Function.update_self] using hfs
  · simpa only [Function.update_self] using ⟨hslot.dirent, hslot.lba, hslot.off⟩
  · rintro _ _ ⟨rfl, rfl⟩
    refine View.wp_pure (.inr ⟨Nat.pos_of_ne_zero hne, rfl, d, hd, ?_⟩)
    simp only [Function.update_self]
    rfl

/-- The number of clusters that a write needs is enough for it. -/
lemma le_needed (hl : Layout fs) {e n : ℕ} (he : e < 2 ^ 33)
    (hn : max 1 (u32 ((e + clusterSize fs - 1) / clusterSize fs)) ≤ n) :
    e ≤ n * clusterSize fs := by
  have hcs := clusterSize_pos hl
  have hcs' : 512 ≤ clusterSize fs := by
    have := Nat.mul_le_mul_right 512 hl.spc_pos
    rwa [Nat.one_mul] at this
  have hu : u32 ((e + clusterSize fs - 1) / clusterSize fs) =
      (e + clusterSize fs - 1) / clusterSize fs := by
    refine Nat.mod_eq_of_lt (lt_of_le_of_lt (Nat.div_le_div_right (Nat.sub_le _ _)) ?_)
    rw [Nat.add_div_right _ hcs]
    have : e / clusterSize fs ≤ e / 512 := Nat.div_le_div_left hcs' (by decide)
    omega
  rw [hu] at hn
  have hdiv : (e + clusterSize fs - 1) / clusterSize fs ≤ n := (le_max_right _ _).trans hn
  have hlt := Nat.lt_mul_of_div_lt (Nat.lt_succ_of_le hdiv) hcs
  rw [Nat.succ_mul] at hlt
  omega

/-- The number of free clusters. -/
def freeCount (fs : Fat32Fs) (v : Volume) : ℕ :=
  ((Finset.Icc 2 (fs.totalClusters + 1)).filter fun c => v.fat c = 0).card

/-- No more clusters can be allocated than are free. -/
lemma length_le_freeCount {l : List ℕ} (hnd : l.Nodup) (hin : ∀ c ∈ l, InRange fs c)
    (hfree : ∀ c ∈ l, v.fat c = 0) : l.length ≤ freeCount fs v := by
  rw [← List.toFinset_card_of_nodup hnd, freeCount]
  refine Finset.card_le_card fun c hc => ?_
  rw [List.mem_toFinset] at hc
  have hrange : InRange fs c := hin c hc
  exact Finset.mem_filter.mpr ⟨Finset.mem_Icc.mpr hrange, hfree c hc⟩

/-- What `fat32_write` makes of a volume before it stores any bytes: the file has got the clusters
`new`, and it is as long as the write of `size` bytes at `offset` needs unless the volume is
full. -/
structure FileGrown (fs : Fat32Fs) (v v' : Volume) (node : ℕ) (l new : List ℕ)
    (first offset size : ℕ) : Prop where
  chain : ChainAt fs v'.fat first (l ++ new)
  first_eq : l ≠ [] → first = (v.nodes node).inode
  nonempty : l ++ new ≠ []
  free : ∀ c ∈ new, v.fat c = 0
  fat : ∀ c, c ∉ l → c ∉ new → v'.fat c = v.fat c
  full : (l ++ new).length * clusterSize fs < offset + size → Full fs v'
  nodes : v'.nodes = Function.update v.nodes node { v.nodes node with inode := first }
  used : v'.used = v.used
  data : ∀ i, (∀ c ∈ new, ¬InCluster fs c i) → v'.data i = v.data i
  same : new = [] → v' = v

/-- How far a write of `size` bytes at `offset` gets in a file of `n` clusters. -/
def writableEnd (fs : Fat32Fs) (offset size n : ℕ) : ℕ := min (offset + size) (n * clusterSize fs)

/-- `fat32_write` grows the file, then stores the bytes that there is room for. -/
lemma wp_write_grown (hl : Layout fs) {node offset size : ℕ} {l : List ℕ} {input : Bytes}
    {R : ℤ → Volume → Prop} (hfile : (v.nodes node).type = .file) (hfs : (v.nodes node).fi.fs = fs)
    (hchain : FileChain fs v.fat (v.nodes node).inode l) (hoffset : offset ≤ (v.nodes node).size)
    (hsize : 0 < size) (hwidth : offset + size < 2 ^ 33) (hfull : Full fs v → R (-1) v)
    (hgrown : ∀ v' new first, FileGrown fs v v' node l new first offset size →
      (fat32View fs).wp (if writableEnd fs offset size (l ++ new).length - offset = 0 then return 0
        else writeWindow fs node offset
          (writableEnd fs offset size (l ++ new).length - offset) first
          input) R v') :
    (fat32View fs).wp (fat32Write node offset size input) R v := by
  refine View.wp_get fun s _ hs => ?_
  have hnodes : s.nodePool = v.nodes := congrArg Volume.nodes hs
  simp only [hnodes, hfile, VfsType.isFile, Bool.not_true, Bool.false_eq_true, if_false, hfs,
    if_neg (Nat.pos_iff_ne_zero.mp hsize), if_neg (Nat.not_lt.mpr hoffset)]
  refine View.wp_bind (wp_ensureFirst hl hchain) ?_
  rintro first v₁ (⟨rfl, rfl, hnone⟩ | ⟨new₁, fat₁, hold, hne, hcons, hchain₁, hfree₁, hfat₁, rfl⟩)
  · exact View.wp_ite (fun _ => View.wp_pure (hfull hnone)) (fun h => absurd rfl h)
  refine View.wp_ite (fun h => absurd h hne) (fun _ => ?_)
  obtain ⟨l₀, t, hl₀⟩ : ∃ l₀ t, l ++ new₁ = l₀ ++ [t] :=
    ⟨_, _, (List.dropLast_append_getLast hcons).symm⟩
  rw [hl₀] at hchain₁
  refine View.wp_bind (wp_chainTail hl hchain₁) ?_
  rintro _ _ ⟨rfl, rfl⟩
  dsimp only
  refine View.wp_bind (wp_growChain hl hchain₁ ?_) ?_
  · have hlt : u32 ((offset + size + clusterSize fs - 1) / clusterSize fs) < 2 ^ 32 :=
      Nat.mod_lt _ (by decide)
    unfold loopFuel
    omega
  rintro allocated v₂ ⟨new₂, hallocated, hchain₂, hgrew, hshort⟩
  have hall : l ++ (new₁ ++ new₂) = l₀ ++ t :: new₂ := by
    rw [← List.append_assoc, hl₀]
    simp
  have hlen : allocated = (l ++ (new₁ ++ new₂)).length := by
    rw [hall, List.length_append, List.length_cons]
    omega
  rw [hlen]
  refine hgrown v₂ (new₁ ++ new₂) first ⟨hall ▸ hchain₂, fun h => (hold h).2.2, ?_, fun c hc => ?_,
    fun c hc hc' => ?_, fun hlt => ?_, ?_, hgrew.used, fun i hi => ?_, fun h => ?_⟩
  · rw [hall]
    simp
  · rcases List.mem_append.mp hc with hc | hc
    · exact hfree₁ c hc
    · by_cases hc₁ : c ∈ new₁
      · exact hfree₁ c hc₁
      · rw [← hfat₁ c hc₁]
        exact hgrew.free c hc
  · have hc₁ : c ∉ new₁ := fun h => hc' (List.mem_append_left _ h)
    have hc₂ : c ∉ new₂ := fun h => hc' (List.mem_append_right _ h)
    have hc₀ : c ∉ l₀ ++ [t] := by
      rw [← hl₀]
      exact fun h => (List.mem_append.mp h).elim hc hc₁
    rw [← hfat₁ c hc₁]
    exact hgrew.fat c hc₀ hc₂
  · -- too few clusters for the whole window means that no cluster is free
    rw [← hlen] at hlt
    refine hshort ?_
    by_contra hge
    exact absurd (le_needed hl hwidth (Nat.le_of_not_lt hge)) (by omega)
  · simp only [hgrew.nodes]
  · exact hgrew.data i fun c hc => hi c (List.mem_append_right _ hc)
  · obtain ⟨rfl, rfl⟩ := List.append_eq_nil_iff.mp h
    obtain ⟨-, rfl, rfl⟩ := hold (by simpa using hcons)
    rw [hgrew.same rfl, Function.update_eq_self]

/-- `fat32_write` stores the bytes it is given, or as many of them as there is room for; it falls
short only when no cluster is free any more, and then with nothing written it changes nothing. -/
lemma wp_write (hl : Layout fs) {node offset size : ℕ} {l : List ℕ} (input : Bytes)
    (hfile : (v.nodes node).type = .file) (hfs : (v.nodes node).fi.fs = fs)
    (hslot : HasSlot fs (v.nodes node)) (hchain : FileChain fs v.fat (v.nodes node).inode l)
    (hcover : (v.nodes node).size ≤ l.length * clusterSize fs)
    (hoffset : offset ≤ (v.nodes node).size) (hsize : 0 < size)
    (hwidth : offset + size < 2 ^ 33)
    (hend : min (offset + size) ((l.length + freeCount fs v) * clusterSize fs) ≤ 2 ^ 32 - 512) :
    (fat32View fs).wp (fat32Write node offset size input) (fun r v' =>
      (v' = v ∧ Full fs v ∧ (r = 0 ∨ r = -1)) ∨
      ∃ new first n, 0 < n ∧ n ≤ size ∧ (n < size → Full fs v') ∧ r = int32 n ∧
        FileWritten fs v v' node l new first offset n input) v := by
  refine wp_write_grown hl hfile hfs hchain hoffset hsize hwidth
    (fun hfull => .inl ⟨rfl, hfull, .inr rfl⟩) fun v₂ new first hgrown => ?_
  obtain ⟨n, hn⟩ : ∃ n, n = writableEnd fs offset size (l ++ new).length - offset := ⟨_, rfl⟩
  have hn' : n = min (offset + size) ((l ++ new).length * clusterSize fs) - offset := hn
  rw [← hn]
  refine View.wp_ite (fun h0 => View.wp_pure (.inl ?_)) (fun h0 => ?_)
  · have hle : (l ++ new).length * clusterSize fs ≤ l.length * clusterSize fs := by omega
    have hle' := Nat.le_of_mul_le_mul_right hle (clusterSize_pos hl)
    have hnil : new = [] := by
      rw [← List.length_eq_zero_iff]
      rw [List.length_append] at hle'
      omega
    have hv := hgrown.same hnil
    exact ⟨hv, hv ▸ hgrown.full (by omega), .inl rfl⟩
  · have hnode : v₂.nodes node = { v.nodes node with inode := first } := by
      simp only [hgrown.nodes, Function.update_self]
    have hcover₂ : offset + n ≤ (l ++ new).length * clusterSize fs := by omega
    have hnew : new.length ≤ freeCount fs v :=
      length_le_freeCount (List.nodup_append.mp (ChainAt.nodup hl hgrown.chain)).2.1
        (fun c hc => hgrown.chain.inside_of_mem (List.mem_append_right _ hc)) hgrown.free
    have hroom : (l ++ new).length * clusterSize fs ≤
        (l.length + freeCount fs v) * clusterSize fs := by
      refine Nat.mul_le_mul_right _ ?_
      rw [List.length_append]
      omega
    have hlow : offset + n ≤ 2 ^ 32 - 512 := by omega
    have hvis := visible_eq hlow
    have hwindow := wp_writeWindow hl input (by rw [hnode]; exact hfs)
      (by rw [hnode]; exact ⟨hslot.dirent, hslot.lba, hslot.off⟩) hgrown.chain (.inl hlow)
      (hvis.symm ▸ hcover₂)
    rw [hvis] at hwindow
    refine View.wp_mono hwindow ?_
    rintro _ _ (⟨hzero, -⟩ | ⟨-, rfl, d, hd, rfl⟩)
    · omega
    refine .inr ⟨new, first, n, by omega, by omega, fun hlt => hgrown.full (by omega), rfl, ?_⟩
    rw [hnode]
    refine ⟨hgrown.chain, hgrown.first_eq, hgrown.nonempty, hgrown.free, hgrown.fat, hcover₂, ?_,
      hgrown.used, d, rfl, hd.window, fun i hi hi' => ?_⟩
    · simp only [hgrown.nodes, Function.update_idem]
    · rw [hd.other i hi']
      exact hgrown.data i hi

end Fat32

end CoolFrost

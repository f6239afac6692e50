import CoolFrost.Lib.ByteOrder
import CoolFrost.Lib.Signed
import CoolFrost.Fs.Ntfs.RunLists
import CoolFrost.Fs.Xfs.Extents

/-!
# Packed records

`parse_run` (`fs/ntfs.c`) and `xfs_decode_extent` (`fs/xfs.c`) once more, with the shifts and masks
of the source on its machine words.  They invert the encodings of the two file systems, and they are
the functions that the drivers are modelled with.
-/

namespace CoolFrost

open Program

/-! ## Runs -/

namespace Ntfs

/-- A loop `for (i = lo; i < lo + n; i++) acc |= (uint32_t)b[i] << (i * 8)`. -/
def orLoop (b : Bytes) (lo n : ℕ) (acc : UInt32) : UInt32 :=
  (List.range' lo n).foldl (fun acc i => acc ||| (b i).toUInt32 <<< UInt32.ofNat (i * 8)) acc

/-- The same loop on a signed number. -/
def orLoopInt (b : Bytes) (lo n : ℕ) (acc : Int32) : Int32 :=
  (List.range' lo n).foldl (fun acc i =>
    acc ||| ((b i).toUInt32 <<< UInt32.ofNat (i * 8)).toInt32) acc

/-- `parse_run` on machine words: the bytes taken, the length and the offset. -/
def parseRunWords (run : Bytes) : Option (ℕ × UInt32 × Int32) :=
  let header := run 0
  let lenSz := (header &&& 0x0F).toNat
  let offSz := ((header >>> 4) &&& 0x0F).toNat
  if header = 0 then none
  else if lenSz = 0 ∨ 4 < lenSz then none
  else if 4 < offSz then none
  else
    let length := orLoop (fun i => run (1 + i)) 0 lenSz 0
    let offset := orLoopInt (fun i => run (1 + lenSz + i)) 0 offSz 0
    -- the sign goes into the bytes that are not stored
    let offset :=
      if 0 < offSz ∧ run (lenSz + offSz) &&& 0x80 ≠ 0 then
        orLoopInt (fun _ => 0xFF) offSz (4 - offSz) offset
      else offset
    some (1 + lenSz + offSz, length, offset)

/-- A number fits into `w` bytes as two's complement; only 0 fits into none. -/
def FitsSigned (w : ℕ) (d : ℤ) : Prop := -256 ^ w ≤ 2 * d ∧ 2 * d < 256 ^ w

/-- A run in the encoding of the file system: the widths of the two numbers in the nibbles of the
header, and the bytes of the numbers. -/
def encodeRun (lenSz offSz length : ℕ) (offset : ℤ) : List UInt8 :=
  UInt8.ofNat (lenSz + 16 * offSz) :: Bytes.leBytes lenSz length ++
    Bytes.leBytes offSz (offset % 256 ^ offSz).toNat

example : encodeRun 2 1 300 (-2) = [0x12, 0x2C, 0x01, 0xFE] := by decide

variable {b : Bytes} {lo n : ℕ}

/-- The loop puts bytes in front of a number that does not reach them. -/
lemma toNat_orLoop {acc : UInt32} (hacc : acc.toNat < 256 ^ lo) (hn : lo + n ≤ 4) :
    (orLoop b lo n acc).toNat = acc.toNat + 256 ^ lo * b.leNat lo n := by
  induction n generalizing lo acc with
  | zero => rw [Bytes.leNat, Nat.mul_zero]; rfl
  | succ n ih =>
    have hbyte := (b lo).toNat_lt
    have hpow : 2 ^ (8 * lo) = 256 ^ lo := pow_mul 2 8 lo
    have hshift : ((b lo).toUInt32 <<< UInt32.ofNat (lo * 8)).toNat = (b lo).toNat * 256 ^ lo := by
      have hlo : (UInt32.ofNat (lo * 8)).toNat % 32 = lo * 8 := by
        rw [UInt32.toNat_ofNat_of_lt' (by change _ < 2 ^ 32; omega)]
        omega
      have hmax : (b lo).toNat * 256 ^ lo < 2 ^ 32 := by
        calc (b lo).toNat * 256 ^ lo < 256 * 256 ^ lo :=
          Nat.mul_lt_mul_of_pos_right hbyte (by positivity)
          _ = 256 ^ (lo + 1) := (pow_succ' 256 lo).symm
          _ ≤ 256 ^ 4 := Nat.pow_le_pow_right (by decide) (by omega)
      rw [UInt32.toNat_shiftLeft, hlo, UInt8.toNat_toUInt32, Nat.shiftLeft_eq,
        Nat.mul_comm lo, hpow, Nat.mod_eq_of_lt hmax]
    have hor : (acc ||| (b lo).toUInt32 <<< UInt32.ofNat (lo * 8)).toNat =
        acc.toNat + (b lo).toNat * 256 ^ lo := by
      rw [UInt32.toNat_or, hshift, ← hpow, Nat.mul_comm, Nat.or_comm,
        ← Nat.two_pow_add_eq_or_of_lt (by rwa [hpow]), Nat.add_comm]
    have hnext : acc.toNat + (b lo).toNat * 256 ^ lo < 256 ^ (lo + 1) := by
      rw [pow_succ']
      nlinarith [Nat.mul_le_mul_right (256 ^ lo) (Nat.le_of_lt_succ hbyte)]
    rw [orLoop, List.range'_succ, List.foldl_cons]
    change (orLoop b (lo + 1) n _).toNat = _
    rw [ih (by rw [hor]; exact hnext) (by omega), hor, Bytes.leNat, pow_succ]
    ring

/-- On a signed number the loop does the same. -/
lemma orLoopInt_toInt32 (acc : UInt32) :
    orLoopInt b lo n acc.toInt32 = (orLoop b lo n acc).toInt32 := by
  induction n generalizing lo acc with
  | zero => rfl
  | succ n ih =>
    rw [orLoopInt, orLoop, List.range'_succ, List.foldl_cons, List.foldl_cons, ← UInt32.toInt32_or]
    exact ih _

/-- The sign of a number is the top bit of its last byte. -/
lemma and_sign_ne_zero_iff (x : UInt8) : x &&& 0x80 ≠ 0 ↔ 128 ≤ x.toNat := by
  have hall : ∀ x : Fin 256, UInt8.ofFin x &&& 0x80 ≠ 0 ↔ 128 ≤ x.val := by decide +kernel
  exact hall x.toFin

/-- A word is the signed number with the same remainder. -/
lemma toInt32_eq_ofInt {x : UInt32} {z : ℤ} (h : (x.toNat : ℤ).bmod (2 ^ 32) = z.bmod (2 ^ 32)) :
    x.toInt32 = Int32.ofInt z := by
  have hx : x.toInt32 = Int32.ofInt x.toNat := by
    rw [Int32.ofInt_eq_ofNat, ← UInt32.toInt32_ofNat', UInt32.ofNat_toNat]
  rw [hx, Int32.ofInt_eq_iff_bmod_eq_toInt, Int32.toInt_ofInt]
  exact h

/-- The bytes that carry the sign. -/
lemma leNat_ones (off n : ℕ) : Bytes.leNat (fun _ => 0xFF) off n + 1 = 256 ^ n := by
  induction n generalizing off with
  | zero => rfl
  | succ n ih =>
    have hrest := ih (off + 1)
    rw [Bytes.leNat, pow_succ]
    change 255 + 256 * _ + 1 = _
    omega

/-- The two loops for the offset put together a signed number. -/
lemma offset_eq (run : Bytes) (pos : ℕ) {n : ℕ} (hn : n ≤ 4) :
    (if 0 < n ∧ run (pos + n - 1) &&& 0x80 ≠ 0 then
        orLoopInt (fun _ => 0xFF) n (4 - n) (orLoopInt (fun i => run (pos + i)) 0 n 0)
      else orLoopInt (fun i => run (pos + i)) 0 n 0) = Int32.ofInt (leInt run pos n) := by
  have hbytes : Bytes.leNat (fun i => run (pos + i)) 0 n = Bytes.leNat run pos n :=
    Bytes.leNat_congr fun i _ => by rw [Nat.zero_add]
  have hstored : (orLoop (fun i => run (pos + i)) 0 n 0).toNat = Bytes.leNat run pos n := by
    rw [toNat_orLoop (by decide) (by omega), hbytes, pow_zero, Nat.one_mul]
    exact Nat.zero_add _
  have hzero : orLoopInt (fun i => run (pos + i)) 0 n 0 =
      (orLoop (fun i => run (pos + i)) 0 n 0).toInt32 := orLoopInt_toInt32 0
  have hiff : (0 < n ∧ run (pos + n - 1) &&& 0x80 ≠ 0) ↔
      (0 < n ∧ 128 ≤ (run (pos + n - 1)).toNat) :=
    and_congr_right fun _ => and_sign_ne_zero_iff _
  by_cases hsign : 0 < n ∧ 128 ≤ (run (pos + n - 1)).toNat
  · rw [if_pos (hiff.mpr hsign), hzero, orLoopInt_toInt32, leInt, if_pos hsign]
    apply toInt32_eq_ofInt
    have hones := leNat_ones n (4 - n)
    have hpow : 256 ^ n * 256 ^ (4 - n) = 2 ^ 32 := by
      rw [← pow_add, Nat.add_sub_cancel' hn]
      rfl
    rw [toNat_orLoop (by rw [hstored]; exact Bytes.leNat_lt run pos n) (by omega), hstored]
    -- the bytes with the sign add up to one turn less the place they start at
    have hsum : ((Bytes.leNat run pos n + 256 ^ n * Bytes.leNat (fun _ => 0xFF) n
      (4 - n) : ℕ) : ℤ) =
        Bytes.leNat run pos n - 256 ^ n + (2 ^ 32 : ℕ) := by
      have hcast : (256 ^ n * (Bytes.leNat (fun _ => 0xFF) n (4 - n) + 1) : ℤ) = (2 ^ 32 : ℕ) := by
        rw [← hpow, ← hones]
        push_cast
        ring
      push_cast at hcast ⊢
      linarith
    rw [hsum]
    exact Int.add_bmod_right _ _
  · rw [if_neg (hiff.not.mpr hsign), hzero, leInt, if_neg hsign]
    apply toInt32_eq_ofInt
    rw [hstored]

lemma toNat_low_nibble (x : UInt8) : (x &&& 0x0F).toNat = x.toNat % 16 := by
  rw [UInt8.toNat_and]
  exact Nat.and_two_pow_sub_one_eq_mod _ 4

lemma toNat_high_nibble (x : UInt8) : ((x >>> 4) &&& 0x0F).toNat = x.toNat / 16 := by
  have hlt := x.toNat_lt
  rw [toNat_low_nibble, UInt8.toNat_shiftRight]
  change x.toNat >>> 4 % 16 = _
  rw [Nat.shiftRight_eq_div_pow]
  omega

/-- `parse_run` reads two numbers of the widths in the header. -/
lemma parseRunWords_eq (run : Bytes) {lenSz offSz : ℕ}
    (hhead : (run 0).toNat = lenSz + 16 * offSz) (hlen : 1 ≤ lenSz ∧ lenSz ≤ 4) (hoff : offSz ≤ 4) :
    parseRunWords run = some (1 + lenSz + offSz, .ofNat (Bytes.leNat run 1 lenSz),
      .ofInt (leInt run (1 + lenSz) offSz)) := by
  have hlow : (run 0 &&& 0x0F).toNat = lenSz := by
    rw [toNat_low_nibble, hhead]
    omega
  have hhigh : ((run 0 >>> 4) &&& 0x0F).toNat = offSz := by
    rw [toNat_high_nibble, hhead]
    omega
  have hzero : run 0 ≠ 0 := by
    rw [ne_eq, ← UInt8.toNat_inj, hhead, UInt8.toNat_zero]
    omega
  have hbytes : Bytes.leNat (fun i => run (1 + i)) 0 lenSz = Bytes.leNat run 1 lenSz :=
    Bytes.leNat_congr fun i _ => by rw [Nat.zero_add]
  have hlength : orLoop (fun i => run (1 + i)) 0 lenSz 0 = .ofNat (Bytes.leNat run 1 lenSz) := by
    rw [← hbytes, ← UInt32.ofNat_toNat (x := orLoop _ _ _ _), toNat_orLoop (by decide) (by omega),
      pow_zero, Nat.one_mul]
    exact congrArg UInt32.ofNat (Nat.zero_add _)
  have hoffset := offset_eq run (1 + lenSz) hoff
  rw [show 1 + lenSz + offSz - 1 = lenSz + offSz by omega] at hoffset
  simp only [parseRunWords]
  rw [if_neg hzero, hlow, hhigh, if_neg (by omega), if_neg (by omega), hlength, hoffset]

/-- The upper half of the numbers is negative. -/
lemma leInt_eq (b : Bytes) (off n : ℕ) : leInt b off n =
    if 0 < n ∧ 256 ^ n ≤ 2 * b.leNat off n then (b.leNat off n : ℤ) - 256 ^ n
        else b.leNat off n := by
  cases n with
  | zero => rfl
  | succ n =>
    have hlow := Bytes.leNat_lt b off n
    have hiff : 128 ≤ (b (off + n)).toNat ↔ 256 ^ (n + 1) ≤ 2 * b.leNat off (n + 1) := by
      rw [Bytes.leNat_succ_last, pow_succ]
      constructor
      · intro htop
        nlinarith [Nat.mul_le_mul_left (256 ^ n) htop]
      · intro hge
        by_contra htop
        nlinarith [Nat.mul_le_mul_left (256 ^ n) (Nat.le_of_lt_succ (not_le.mp htop))]
    rw [leInt, ← Nat.add_assoc, Nat.add_sub_cancel]
    exact if_congr (and_congr_right fun _ => hiff) rfl rfl

/-- A signed number is the one that its remainder stands for. -/
lemma FitsSigned.eq {w : ℕ} {d : ℤ} (h : FitsSigned w d) {v : ℕ} (hv : v = (d % 256 ^ w).toNat) :
    (if 0 < w ∧ 256 ^ w ≤ 2 * v then (v : ℤ) - 256 ^ w else v) = d := by
  obtain ⟨hlow, hhigh⟩ := h
  have hpos : (0 : ℤ) < 256 ^ w := by positivity
  have hv' : (v : ℤ) = d % 256 ^ w := by rw [hv, Int.toNat_of_nonneg (Int.emod_nonneg _ hpos.ne')]
  have hiff : 256 ^ w ≤ 2 * v ↔ (256 ^ w : ℤ) ≤ 2 * v := by exact_mod_cast Iff.rfl
  rcases lt_or_ge d 0 with hneg | hnonneg
  · have hw : 0 < w := by
      by_contra hw
      obtain rfl : w = 0 := by omega
      simp only [pow_zero] at hlow
      omega
    have hmod : d % 256 ^ w = d + 256 ^ w := by
      rw [← Int.add_emod_right, Int.emod_eq_of_lt (by linarith) (by linarith)]
    rw [if_pos ⟨hw, hiff.mpr (by rw [hv', hmod]; linarith)⟩, hv', hmod, add_sub_cancel_right]
  · have hmod : d % 256 ^ w = d := Int.emod_eq_of_lt hnonneg (by linarith)
    rw [if_neg fun hbig => absurd (hiff.mp hbig.2) (by rw [hv', hmod]; linarith), hv', hmod]

/-- `parse_run` gives back what has been encoded. -/
lemma parseRunWords_encodeRun {lenSz offSz : ℕ} {length : UInt32} {offset : Int32}
    (rest : List UInt8)
    (hlen : 1 ≤ lenSz ∧ lenSz ≤ 4) (hoff : offSz ≤ 4) (hlength : length.toNat < 256 ^ lenSz)
    (hoffset : FitsSigned offSz offset.toInt) :
    parseRunWords (.ofList (encodeRun lenSz offSz length.toNat offset.toInt ++ rest)) =
      some (1 + lenSz + offSz, length, offset) := by
  have hhead : (Bytes.ofList (encodeRun lenSz offSz length.toNat offset.toInt ++ rest) 0).toNat =
      lenSz + 16 * offSz := Nat.mod_eq_of_lt (by omega)
  have hfirst : Bytes.leNat
    (.ofList (encodeRun lenSz offSz length.toNat offset.toInt ++ rest)) 1 lenSz =
      length.toNat := by
    have hone : [UInt8.ofNat (lenSz + 16 * offSz)].length = 1 := List.length_singleton
    rw [encodeRun, List.append_assoc, ← List.singleton_append, Bytes.leNat_leBytes hone,
      Nat.mod_eq_of_lt hlength]
  have hpos : (0 : ℤ) < 256 ^ offSz := by positivity
  have hsecond : Bytes.leNat (.ofList (encodeRun lenSz offSz length.toNat offset.toInt ++ rest))
      (1 + lenSz) offSz = (offset.toInt % 256 ^ offSz).toNat := by
    rw [encodeRun, Bytes.leNat_leBytes
      (by rw [List.length_cons, Bytes.length_leBytes, Nat.add_comm])]
    refine Nat.mod_eq_of_lt ?_
    have hlt := Int.emod_lt_of_pos offset.toInt hpos
    zify
    rwa [Int.toNat_of_nonneg (Int.emod_nonneg _ hpos.ne')]
  rw [parseRunWords_eq _ hhead hlen hoff, hfirst, UInt32.ofNat_toNat, leInt_eq, hoffset.eq hsecond,
    Int32.ofInt_toInt]

/-- A signed number of up to four bytes is one of 32 bits. -/
lemma toInt_ofInt_leInt (b : Bytes) (off : ℕ) {n : ℕ} (hn : n ≤ 4) :
    (Int32.ofInt (leInt b off n)).toInt = leInt b off n := by
  have hlt := Bytes.leNat_lt b off n
  have hpow : 256 ^ n ≤ 2 ^ 32 := Nat.pow_le_pow_right (by decide : 0 < 256) hn
  have hcast : ((256 ^ n : ℕ) : ℤ) = 256 ^ n := by push_cast; rfl
  rw [Int32.toInt_ofInt, leInt_eq, ← hcast]
  split_ifs with hbig
  · exact Signed.bmod_eq_self (by omega) (by omega)
  · have hsmall : 2 * Bytes.leNat b off n < 256 ^ n := by
      rcases Nat.eq_zero_or_pos n with rfl | hpos
      · rw [pow_zero] at hlt ⊢
        omega
      · exact not_le.mp fun hle => hbig ⟨hpos, hle⟩
    exact Signed.bmod_eq_self (by omega) (by omega)

/-- The `parse_run` of the drivers returns the same numbers. -/
theorem wp_parseRun_words {σ : Type} {run : Bytes} {pos : ℕ} (hpos : pos < bufSize)
    (hsize : ∀ r ∈ parseRunWords (run.shift pos), pos + r.1 ≤ bufSize) (s : σ) :
    wp (parseRun run pos) (fun r s' => s' = s ∧ r = (parseRunWords (run.shift pos)).map
      fun r => (r.1, r.2.1.toNat, r.2.2.toInt)) s := by
  have hheader : Bytes.leNat run pos 1 = (run.shift pos 0).toNat := rfl
  rw [parseRun, wp_bind, wp_load, hheader]
  refine ⟨hpos, wp_ite_intro (fun hzero => ?_) fun hzero =>
      wp_ite_intro (fun hlen => ?_) fun hlen =>
    wp_ite_intro (fun hoff => ?_) fun hoff => ?_⟩
  · rw [wp_pure, parseRunWords, if_pos (UInt8.toNat_inj.mp hzero)]
    exact ⟨rfl, rfl⟩
  · rw [wp_pure, parseRunWords, if_neg fun h => hzero (congrArg UInt8.toNat h), toNat_low_nibble,
      if_pos hlen]
    exact ⟨rfl, rfl⟩
  · rw [wp_pure, parseRunWords, if_neg fun h => hzero (congrArg UInt8.toNat h), toNat_low_nibble,
      if_neg hlen, toNat_high_nibble, if_pos hoff]
    exact ⟨rfl, rfl⟩
  · have hwords := parseRunWords_eq (run.shift pos)
      (Nat.mod_add_div (run.shift pos 0).toNat 16).symm (by omega) (not_lt.mp hoff)
    generalize (run.shift pos 0).toNat % 16 = lenSz at hlen hwords ⊢
    generalize (run.shift pos 0).toNat / 16 = offSz at hoff hwords ⊢
    have hend := hsize _ hwords
    have hlength : (run.shift pos).leNat 1 lenSz = run.leNat (pos + 1) lenSz :=
      Bytes.leNat_congr fun i _ => congrArg run (Nat.add_assoc pos 1 i).symm
    have hoffset : leInt (run.shift pos) (1 + lenSz) offSz =
        if 0 < offSz ∧ 128 ≤ (run (pos + lenSz + offSz)).toNat then
          (run.leNat (pos + 1 + lenSz) offSz : ℤ) - 256 ^ offSz
        else run.leNat (pos + 1 + lenSz) offSz := by
      have hbytes : (run.shift pos).leNat (1 + lenSz) offSz = run.leNat (pos + 1 + lenSz) offSz :=
        Bytes.leNat_congr fun i _ => congrArg run (by omega)
      have hlast : run.shift pos (1 + lenSz + offSz - 1) = run (pos + lenSz + offSz) :=
        congrArg run (by omega)
      rw [leInt, hbytes, hlast]
    have hle : lenSz ≤ 4 := not_lt.mp fun hgt => hlen (.inr hgt)
    have hpow : 256 ^ lenSz ≤ 2 ^ 32 := Nat.pow_le_pow_right (by decide : 0 < 256) hle
    have hmax : run.leNat (pos + 1) lenSz < 2 ^ 32 := (Bytes.leNat_lt run _ _).trans_le hpow
    simp only [wp_bind, wp_load, wp_pure]
    refine ⟨by omega, by omega, trivial, ?_⟩
    rw [hwords, Option.map_some, toInt_ofInt_leInt _ _ (not_lt.mp hoff), hlength, hoffset,
      UInt32.toNat_ofNat_of_lt' hmax]

end Ntfs

/-! ## Extents -/

namespace Xfs

/-- `xfs_be64`: the bytes in the other order. -/
def xfsBe64 (v : UInt64) : UInt64 := .ofNat (Bytes.beNat (.ofNat v.toNat) 0 8)

/-- `*(const uint64_t *)&rec16[off]`. -/
def loadWord (rec16 : Bytes) (off : ℕ) : UInt64 := .ofNat (Bytes.leNat rec16 off 8)

/-- `xfs_decode_extent` on machine words. -/
def xfsDecodeExtentWords (rec16 : Bytes) : XfsExtent :=
  let l0 := xfsBe64 (loadWord rec16 0)
  let l1 := xfsBe64 (loadWord rec16 8)
  { unwritten := l0 >>> 63 ≠ 0
    startoff := ((l0 >>> 9) &&& (((1 : UInt64) <<< 54) - 1)).toNat
    startblock := (((l0 &&& 0x1FF) <<< 43) ||| (l1 >>> 21)).toNat
    blockcount := (l1 &&& (((1 : UInt64) <<< 21) - 1)).toUInt32.toNat }

/-- An extent as a number of 128 bits. -/
def packExtent (e : XfsExtent) : ℕ :=
  e.unwritten.toNat * 2 ^ 127 + e.startoff * 2 ^ 73 + e.startblock * 2 ^ 21 + e.blockcount

/-- The record of an extent on the drive. -/
def encodeExtent (e : XfsExtent) : List UInt8 := Bytes.beBytes 16 (packExtent e)

lemma toNat_xfsBe64 (rec16 : Bytes) (off : ℕ) :
    (xfsBe64 (loadWord rec16 off)).toNat = Bytes.beNat rec16 off 8 := by
  have hload : (loadWord rec16 off).toNat = Bytes.leNat rec16 off 8 :=
    UInt64.toNat_ofNat_of_lt' (Bytes.leNat_lt rec16 off 8)
  have hswap : Bytes.beNat (.ofNat (Bytes.leNat rec16 off 8)) 0 8 = Bytes.beNat rec16 off 8 :=
    Bytes.beNat_congr fun i hi => by rw [Nat.zero_add, Bytes.ofNat_leNat rec16 off 8 hi]
  rw [xfsBe64, hload, hswap]
  exact UInt64.toNat_ofNat_of_lt' (Bytes.beNat_lt rec16 off 8)

/-- The shifts and masks cut the two words as the driver's decoder does. -/
lemma xfsDecodeExtentWords_eq (rec16 : Bytes) :
    xfsDecodeExtentWords rec16 = xfsDecodeExtent (Bytes.beNat rec16 0 8)
    (Bytes.beNat rec16 8 8) := by
  have h0 := toNat_xfsBe64 rec16 0
  have h1 := toNat_xfsBe64 rec16 8
  have hl0 := Bytes.beNat_lt rec16 0 8
  have hl1 := Bytes.beNat_lt rec16 8 8
  rw [xfsDecodeExtentWords, xfsDecodeExtent, XfsExtent.mk.injEq]
  refine ⟨?_, ?_, ?_, ?_⟩
  · rw [UInt64.toNat_and, UInt64.toNat_shiftRight, h0]
    change Bytes.beNat rec16 0 8 >>> 9 &&& 2 ^ 54 - 1 = _
    rw [Nat.and_two_pow_sub_one_eq_mod, Nat.shiftRight_eq_div_pow]
  · rw [UInt64.toNat_or, UInt64.toNat_shiftLeft, UInt64.toNat_and, UInt64.toNat_shiftRight, h0, h1]
    change (Bytes.beNat rec16 0 8 &&& 2 ^ 9 - 1) <<< 43 % 2 ^ 64 ||| Bytes.beNat
      rec16 8 8 >>> 21 = _
    have hlow : Bytes.beNat rec16 8 8 / 2 ^ 21 < 2 ^ 43 := by omega
    rw [Nat.and_two_pow_sub_one_eq_mod, Nat.shiftRight_eq_div_pow, Nat.shiftLeft_eq,
      Nat.mod_eq_of_lt (by omega), Nat.mul_comm, ← Nat.two_pow_add_eq_or_of_lt hlow]
  · rw [UInt64.toNat_toUInt32, UInt64.toNat_and, h1]
    change (Bytes.beNat rec16 8 8 &&& 2 ^ 21 - 1) % 2 ^ 32 = _
    rw [Nat.and_two_pow_sub_one_eq_mod]
    omega
  · rw [decide_eq_decide, ne_eq, ← UInt64.toNat_inj, UInt64.toNat_shiftRight, h0]
    change ¬Bytes.beNat rec16 0 8 >>> 63 = 0 ↔ _
    rw [Nat.shiftRight_eq_div_pow]

/-- The drivers decode the record at an offset in the same way. -/
theorem wp_loadExtent_words {σ : Type} (b : Bytes) (off : ℕ) (Q : XfsExtent → σ → Prop) (s : σ) :
    wp (loadExtent b off) Q s ↔ off + 16 ≤ bufSize ∧ Q (xfsDecodeExtentWords (b.shift off)) s := by
  have hwords : Bytes.beNat (b.shift off) 0 (8 + 8) = Bytes.beNat b off 16 :=
    Bytes.beNat_congr fun i _ => congrArg b (by omega)
  rw [Bytes.beNat_add, Nat.zero_add] at hwords
  rw [wp_loadExtent, xfsDecodeExtentWords_eq,
    xfsDecodeExtent_eq (Bytes.beNat_lt _ 0 8) (Bytes.beNat_lt _ 8 8), hwords]

/-- `xfs_decode_extent` gives back what has been packed. -/
lemma xfsDecodeExtentWords_encodeExtent {e : XfsExtent} (hoff : e.startoff < 2 ^ 54)
    (hblock : e.startblock < 2 ^ 52) (hcount : e.blockcount < 2 ^ 21) :
    xfsDecodeExtentWords (.ofList (encodeExtent e)) = e := by
  have hflag : e.unwritten.toNat < 2 := e.unwritten.toNat_lt
  have hlt : packExtent e < 256 ^ 16 := by
    rw [packExtent]
    omega
  have hnumber : Bytes.beNat (.ofList (encodeExtent e)) 0 (8 + 8) = packExtent e := by
    rw [encodeExtent]
    exact (Bytes.beNat_beBytes 16 _).trans (Nat.mod_eq_of_lt hlt)
  rw [Bytes.beNat_add, Nat.zero_add] at hnumber
  rw [xfsDecodeExtentWords_eq, xfsDecodeExtent_eq (Bytes.beNat_lt _ 0 8)
    (Bytes.beNat_lt _ 8 8), hnumber]
  obtain ⟨startoff, startblock, blockcount, unwritten⟩ := e
  simp only [packExtent] at hlt hflag hoff hblock hcount ⊢
  rw [recordExtent, XfsExtent.mk.injEq]
  refine ⟨by omega, by omega, by omega, ?_⟩
  cases unwritten <;> simp only [Bool.toNat_false, Bool.toNat_true, decide_eq_true_eq,
    decide_eq_false_iff_not] <;> omega

end Xfs

/-- The decoders of packed runs and extents invert the encodings: a run with any widths that its two
numbers fit into, whatever comes after it, and an extent whose fields fit into theirs. -/
theorem decode_encode :
    (∀ (length : UInt32) (offset : Int32) (lenSz offSz : ℕ) (rest : List UInt8),
      1 ≤ lenSz → lenSz ≤ 4 →
      offSz ≤ 4 → length.toNat < 256 ^ lenSz → Ntfs.FitsSigned offSz offset.toInt →
        Ntfs.parseRunWords (.ofList
          (Ntfs.encodeRun lenSz offSz length.toNat offset.toInt ++ rest)) =
          some (1 + lenSz + offSz, length, offset)) ∧
    ∀ e : Xfs.XfsExtent, e.startoff < 2 ^ 54 → e.startblock < 2 ^ 52 → e.blockcount < 2 ^ 21 →
      Xfs.xfsDecodeExtentWords (.ofList (Xfs.encodeExtent e)) = e :=
  ⟨fun _ _ _ _ rest hlen hle hoff hl ho => Ntfs.parseRunWords_encodeRun rest ⟨hlen, hle⟩ hoff hl ho,
    fun _ hoff hblock hcount => Xfs.xfsDecodeExtentWords_encodeExtent hoff hblock hcount⟩

/-- A run of 300 clusters that lies two clusters before the one before it, and an extent with bits
in both words. -/
theorem decode_encode_instance :
    Ntfs.parseRunWords
        (.ofList (Ntfs.encodeRun 2 1 (300 : UInt32).toNat (-2 : Int32).toInt ++ [0])) =
        some (4, 300, -2) ∧
      Xfs.xfsDecodeExtentWords (.ofList (Xfs.encodeExtent ⟨5, 2 ^ 45 + 3, 7, true⟩)) =
        ⟨5, 2 ^ 45 + 3, 7, true⟩ :=
  ⟨decode_encode.1 300 (-2) 2 1 [0] (by decide) (by decide) (by decide) (by decide)
      ⟨by decide, by decide⟩,
    decode_encode.2 ⟨5, 2 ^ 45 + 3, 7, true⟩ (by decide) (by decide) (by decide)⟩

end CoolFrost

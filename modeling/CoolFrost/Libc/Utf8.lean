import CoolFrost.Lib.Utf8

/-!
# UTF-8 in the C library

`libc/utf8.h` and `libc/utf8.c`.  A pointer into a string is the list of the bytes from there on,
behind which there is a zero.  `utf8_decode` returns a code point exactly for the encoding of that
character, and an error or the end for everything else; but an error is returned as U+FFFD, which is
a character as well.
-/

namespace CoolFrost

namespace Rune

open Utf8

/-- `RUNE_ERROR`. -/
def runeError : UInt32 := 0xFFFD
/-- `RUNE_EOF`. -/
def runeEof : UInt32 := 0xFFFFFFFF
/-- `RUNE_MAX`. -/
def runeMax : UInt32 := 0x10FFFF

/-! ## The functions -/

/-- `utf8_byte_len`. -/
def utf8ByteLen (cp : UInt32) : ℕ :=
  if cp < 0x80 then 1
  else if cp < 0x800 then 2
  else if cp < 0x10000 then if 0xD800 ≤ cp ∧ cp ≤ 0xDFFF then 0 else 3
  else if cp ≤ runeMax then 4 else 0

/-- `utf8_is_cont`. -/
def utf8IsCont (b : UInt8) : Bool := b &&& 0xC0 = 0x80

/-- A leading byte that `utf8_encode` writes. -/
def leadByte (mark cp shift : UInt32) : UInt8 := (mark ||| cp >>> shift).toUInt8

/-- A continuation byte that `utf8_encode` writes. -/
def contByte (cp shift : UInt32) : UInt8 := ((0x80 : UInt32) ||| (cp >>> shift &&& 0x3F)).toUInt8

/-- `utf8_encode`: the bytes written. -/
def utf8Encode (cp : UInt32) : List UInt8 :=
  if cp < 0x80 then [cp.toUInt8]
  else if cp < 0x800 then [leadByte 0xC0 cp 6, contByte cp 0]
  else if cp < 0x10000 then
    if 0xD800 ≤ cp ∧ cp ≤ 0xDFFF then [0xEF, 0xBF, 0xBD]
    else [leadByte 0xE0 cp 12, contByte cp 6, contByte cp 0]
  else if cp ≤ runeMax then [leadByte 0xF0 cp 18, contByte cp 12, contByte cp 6, contByte cp 0]
  else [0xEF, 0xBF, 0xBD]

/-- The loop of `utf8_decode` over the continuation bytes, which stops at any other byte. -/
def decodeTail : ℕ → UInt32 → List UInt8 → Option UInt32 × List UInt8
  | 0, cp, s => (some cp, s)
  | n + 1, cp, s =>
    if s.headD 0 &&& 0xC0 ≠ 0x80 then (none, s)
    else decodeTail n (cp <<< 6 ||| (s.headD 0 &&& 0x3F).toUInt32) s.tail

/-- The checks at the end of `utf8_decode`. -/
def checkRune (extra : ℕ) (cp : UInt32) : UInt32 :=
  if extra = 1 ∧ cp < 0x80 then runeError
  else if extra = 2 ∧ cp < 0x800 then runeError
  else if extra = 3 ∧ cp < 0x10000 then runeError
  else if 0xD800 ≤ cp ∧ cp ≤ 0xDFFF then runeError
  else if runeMax < cp then runeError
  else cp

/-- `utf8_decode` behind a leading byte that `extra` bytes have to follow. -/
def decodeExtra (extra : ℕ) (cp : UInt32) (s : List UInt8) : UInt32 × List UInt8 :=
  match decodeTail extra cp s with
  | (some cp, s) => (checkRune extra cp, s)
  | (none, s) => (runeError, s)

/-- `utf8_decode`: the result, and the pointer afterwards. -/
def utf8Decode (s : List UInt8) : UInt32 × List UInt8 :=
  let lead := s.headD 0
  if lead = 0 then (runeEof, s)
  else if lead < 0x80 then (lead.toUInt32, s.tail)
  else if lead &&& 0xE0 = 0xC0 then decodeExtra 1 (lead &&& 0x1F).toUInt32 s.tail
  else if lead &&& 0xF0 = 0xE0 then decodeExtra 2 (lead &&& 0x0F).toUInt32 s.tail
  else if lead &&& 0xF8 = 0xF0 then decodeExtra 3 (lead &&& 0x07).toUInt32 s.tail
  else (runeError, s.tail)

/-- `utf8_strlen`. -/
def utf8Strlen : List UInt8 → ℕ
  | [] => 0
  | b :: s => if b = 0 then 0 else if utf8IsCont b then utf8Strlen s else utf8Strlen s + 1

/-! ## Bytes -/

lemma forall_byte {p : UInt8 → Prop} (h : ∀ n < 256, p (UInt8.ofNat n)) (b : UInt8) : p b := by
  have hb := h b.toNat b.toNat_lt
  rwa [UInt8.ofNat_toNat] at hb

/-- The upper bits of a byte tell which of the marked ranges it is in. -/
lemma and_mask_eq_iff : ∀ b : UInt8,
    (b &&& 0xC0 = 0x80 ↔ 0x80 ≤ b.toNat ∧ b.toNat < 0xC0) ∧
    (b &&& 0xE0 = 0xC0 ↔ 0xC0 ≤ b.toNat ∧ b.toNat < 0xE0) ∧
    (b &&& 0xF0 = 0xE0 ↔ 0xE0 ≤ b.toNat ∧ b.toNat < 0xF0) ∧
    (b &&& 0xF8 = 0xF0 ↔ 0xF0 ≤ b.toNat ∧ b.toNat < 0xF8) :=
  forall_byte (by decide +kernel)

lemma and_C0_eq_iff (b : UInt8) : b &&& 0xC0 = 0x80 ↔ 0x80 ≤ b.toNat ∧ b.toNat < 0xC0 :=
  (and_mask_eq_iff b).1

lemma and_E0_eq_iff (b : UInt8) : b &&& 0xE0 = 0xC0 ↔ 0xC0 ≤ b.toNat ∧ b.toNat < 0xE0 :=
  (and_mask_eq_iff b).2.1

lemma and_F0_eq_iff (b : UInt8) : b &&& 0xF0 = 0xE0 ↔ 0xE0 ≤ b.toNat ∧ b.toNat < 0xF0 :=
  (and_mask_eq_iff b).2.2.1

lemma and_F8_eq_iff (b : UInt8) : b &&& 0xF8 = 0xF0 ↔ 0xF0 ≤ b.toNat ∧ b.toNat < 0xF8 :=
  (and_mask_eq_iff b).2.2.2

/-- To set bits below a power of 2 is to add them. -/
lemma mul_or_eq_add {x i : ℕ} (h : x < 2 ^ i) (a : ℕ) : a * 2 ^ i ||| x = a * 2 ^ i + x := by
  rw [← Nat.shiftLeft_eq]
  exact (Nat.shiftLeft_add_eq_or_of_lt h a).symm

variable {cp : UInt32} {s s' : List UInt8} {n : ℕ}

lemma contByte_eq (cp : UInt32) {k : UInt32} (hk : k.toNat < 32) :
    contByte cp k = UInt8.ofNat (0x80 + cp.toNat / 2 ^ k.toNat % 64) := by
  have hmod : cp.toNat / 2 ^ k.toNat &&& 63 = cp.toNat / 2 ^ k.toNat % 2 ^ 6 :=
    Nat.and_two_pow_sub_one_eq_mod _ 6
  apply UInt8.toNat_inj.mp
  rw [toNat_ofNat_cont, contByte, UInt32.toNat_toUInt8, UInt32.toNat_or, UInt32.toNat_and,
    UInt32.toNat_shiftRight, Nat.mod_eq_of_lt hk, Nat.shiftRight_eq_div_pow]
  change (2 * 2 ^ 6 ||| (cp.toNat / 2 ^ k.toNat &&& 63)) % 2 ^ 8 = _
  rw [hmod, mul_or_eq_add (Nat.mod_lt _ (by decide))]
  omega

lemma leadByte_eq {mark k : UInt32} {a i : ℕ} (hmark : mark.toNat = a * 2 ^ i) (hk : k.toNat < 32)
    (h : cp.toNat / 2 ^ k.toNat < 2 ^ i) :
    leadByte mark cp k = UInt8.ofNat (mark.toNat + cp.toNat / 2 ^ k.toNat) := by
  apply UInt8.toNat_inj.mp
  rw [leadByte, UInt32.toNat_toUInt8, UInt32.toNat_or, UInt32.toNat_shiftRight, Nat.mod_eq_of_lt hk,
    Nat.shiftRight_eq_div_pow, hmark, mul_or_eq_add h]
  rfl

/-- `utf8_encode` writes the encoding of a character. -/
lemma utf8Encode_char (c : Char) : utf8Encode c.val = String.utf8EncodeChar c := by
  have hlt := toNat_lt c
  have hvalid : c.val.toNat < 0xD800 ∨ 0xDFFF < c.val.toNat ∧ c.val.toNat < 0x110000 := c.valid
  rw [encode_eq]
  generalize c.val = cp at *
  unfold utf8Encode extra runeMax
  simp only [UInt32.lt_iff_toNat_lt, UInt32.le_iff_toNat_le, UInt32.reduceToNat]
  by_cases h₁ : cp.toNat < 0x80
  · rw [if_pos h₁, if_pos h₁, Nat.pow_zero, Nat.div_one, marker, Nat.zero_add, continuation,
      UInt8.ofNat_uInt32ToNat]
  by_cases h₂ : cp.toNat < 0x800
  · rw [if_neg h₁, if_pos h₂, if_neg h₁, if_pos h₂, contByte_eq cp (by decide),
      @leadByte_eq cp 0xC0 6 6 5 rfl (by decide) (by change cp.toNat / 64 < 32; omega)]
    rfl
  by_cases h₃ : cp.toNat < 0x10000
  · rw [if_neg h₁, if_neg h₂, if_pos h₃, if_neg (by omega), if_neg h₁, if_neg h₂, if_pos h₃,
      contByte_eq cp (by decide), contByte_eq cp (by decide),
      @leadByte_eq cp 0xE0 12 7 5 rfl (by decide) (by change cp.toNat / 4096 < 32; omega)]
    rfl
  · rw [if_neg h₁, if_neg h₂, if_neg h₃, if_pos (by omega), if_neg h₁, if_neg h₂, if_neg h₃,
      contByte_eq cp (by decide), contByte_eq cp (by decide), contByte_eq cp (by decide),
      @leadByte_eq cp 0xF0 18 15 4 rfl (by decide) (by change cp.toNat / 262144 < 16; omega)]
    rfl

/-! ## Continuation bytes -/

lemma toNat_and_3F (b : UInt8) : (b &&& 0x3F).toNat = b.toNat % 64 := by
  rw [UInt8.toNat_and]
  exact Nat.and_two_pow_sub_one_eq_mod b.toNat 6

/-- A continuation byte adds a digit. -/
lemma toNat_push (h : cp.toNat < 2 ^ 26) (b : UInt8) :
    (cp <<< 6 ||| (b &&& 0x3F).toUInt32).toNat = cp.toNat * 64 + b.toNat % 64 := by
  have hshift : cp.toNat <<< 6 % 2 ^ 32 = cp.toNat * 2 ^ 6 := by
    rw [Nat.shiftLeft_eq]
    omega
  rw [UInt32.toNat_or, UInt32.toNat_shiftLeft, UInt8.toNat_toUInt32, toNat_and_3F]
  change cp.toNat <<< 6 % 2 ^ 32 ||| _ = _
  rw [hshift]
  exact mul_or_eq_add (i := 6) (Nat.mod_lt _ (by decide)) cp.toNat

lemma lt_of_room (h : (cp.toNat + 1) * 64 ^ (n + 1) ≤ 2 ^ 32) :
    cp.toNat < 2 ^ 26 ∧ ∀ d < 64, (cp.toNat * 64 + d + 1) * 64 ^ n ≤ 2 ^ 32 := by
  have hpow : 64 ^ (n + 1) = 64 * 64 ^ n := Nat.pow_succ'
  rw [hpow, ← Nat.mul_assoc] at h
  constructor
  · have hpos : 0 < 64 ^ n := Nat.pow_pos (by decide)
    have hle := (Nat.le_mul_of_pos_right ((cp.toNat + 1) * 64) hpos).trans h
    omega
  · intro d hd
    exact (Nat.mul_le_mul_right _ (by omega)).trans h

/-- The byte of a digit is a continuation byte, and what it makes of the digits before has room for
those to come. -/
lemma push_digit (h : (cp.toNat + 1) * 64 ^ (n + 1) ≤ 2 ^ 32) (v : ℕ) :
    UInt8.ofNat (0x80 + v / 64 ^ n % 64) &&& 0xC0 = 0x80 ∧
      ∃ w, cp <<< 6 ||| (UInt8.ofNat (0x80 + v / 64 ^ n % 64) &&& 0x3F).toUInt32 = w ∧
        w.toNat = cp.toNat * 64 + v / 64 ^ n % 64 ∧ (w.toNat + 1) * 64 ^ n ≤ 2 ^ 32 := by
  obtain ⟨hlt, hroom⟩ := lt_of_room h
  have hdigit : (0x80 + v / 64 ^ n % 64) % 64 = v / 64 ^ n % 64 := by omega
  have hpush := toNat_push hlt (UInt8.ofNat (0x80 + v / 64 ^ n % 64))
  rw [toNat_ofNat_cont, hdigit] at hpush
  refine ⟨(and_C0_eq_iff _).mpr (isCont_ofNat _), _, rfl, hpush, ?_⟩
  rw [hpush]
  exact hroom _ (Nat.mod_lt _ (by decide))

/-- The digits of a number behind those before. -/
lemma mul_add_digits (a n v : ℕ) : (a * 64 + v / 64 ^ n % 64) * 64 ^ n + v % 64 ^ n =
    a * 64 ^ (n + 1) + v % 64 ^ (n + 1) := by
  have hmod : v % 64 ^ (n + 1) = v % 64 ^ n + 64 ^ n * (v / 64 ^ n % 64) := Nat.mod_pow_succ
  rw [hmod]
  ring

/-- The loop reads the digits of a number. -/
lemma decodeTail_continuation (cp : UInt32) (n v : ℕ) (rest : List UInt8)
    (h : (cp.toNat + 1) * 64 ^ n ≤ 2 ^ 32) :
    ∃ w, decodeTail n cp (continuation n v ++ rest) = (some w, rest) ∧
      w.toNat = cp.toNat * 64 ^ n + v % 64 ^ n := by
  induction n generalizing cp with
  | zero => exact ⟨cp, rfl, by rw [Nat.pow_zero, Nat.mod_one, Nat.mul_one, Nat.add_zero]⟩
  | succ n ih =>
    obtain ⟨hcont, cp', hpush, hcp, hroom⟩ := push_digit h v
    obtain ⟨w, hw, hval⟩ := ih cp' hroom
    refine ⟨w, ?_, ?_⟩
    · rw [continuation, List.cons_append, decodeTail, List.headD_cons,
        if_neg (not_not.mpr hcont), hpush]
      exact hw
    · rw [hval, hcp]
      exact mul_add_digits _ _ _

/-- What the loop reads are the digits of its result. -/
lemma decodeTail_some {w : UInt32} (h : (cp.toNat + 1) * 64 ^ n ≤ 2 ^ 32)
    (hw : decodeTail n cp s = (some w, s')) :
    s = continuation n w.toNat ++ s' ∧ w.toNat / 64 ^ n = cp.toNat := by
  induction n generalizing cp s with
  | zero =>
    obtain ⟨hcp, rfl⟩ := Prod.mk.inj hw
    obtain rfl := Option.some.inj hcp
    exact ⟨rfl, by rw [Nat.pow_zero, Nat.div_one]⟩
  | succ n ih =>
    obtain ⟨hlt, hroom⟩ := lt_of_room h
    rw [decodeTail] at hw
    by_cases hcont : s.headD 0 &&& 0xC0 = 0x80
    swap
    · rw [if_pos hcont] at hw
      cases (Prod.mk.inj hw).1
    rw [if_neg (not_not.mpr hcont)] at hw
    have hpush := toNat_push hlt (s.headD 0)
    obtain ⟨htail, hdiv⟩ := ih (by rw [hpush]; exact hroom _ (Nat.mod_lt _ (by decide))) hw
    rw [hpush] at hdiv
    cases s with
    | nil => exact absurd hcont (by decide)
    | cons b s =>
      rw [List.headD_cons] at hdiv hcont
      rw [List.tail_cons] at htail
      obtain ⟨hge, hlt'⟩ := (and_C0_eq_iff b).mp hcont
      constructor
      · have hb : b = UInt8.ofNat (0x80 + w.toNat / 64 ^ n % 64) := by
          apply UInt8.toNat_inj.mp
          rw [toNat_ofNat_cont, hdiv]
          omega
        rw [continuation, List.cons_append, ← hb, ← htail]
      · rw [Nat.pow_succ, ← Nat.div_div_eq_div_mul, hdiv]
        omega

/-! ## Characters -/

/-- The tests of a leading byte that `n` continuation bytes follow, and what is left of it. -/
lemma lead_cases {b : UInt8} (hn : 0 < n) (hle : n ≤ 3) (hge : marker n ≤ b.toNat)
    (hlt : b.toNat < marker n + leads n) : b ≠ 0 ∧ ¬b < 0x80 ∧
      (n = 1 ∧ b &&& 0xE0 = 0xC0 ∧ (b &&& 0x1F).toUInt32.toNat = b.toNat - marker n ∨
      n = 2 ∧ b &&& 0xE0 ≠ 0xC0 ∧ b &&& 0xF0 = 0xE0 ∧
        (b &&& 0x0F).toUInt32.toNat = b.toNat - marker n ∨
      n = 3 ∧ b &&& 0xE0 ≠ 0xC0 ∧ b &&& 0xF0 ≠ 0xE0 ∧ b &&& 0xF8 = 0xF0 ∧
        (b &&& 0x07).toUInt32.toNat = b.toNat - marker n) := by
  have hand : ∀ {m : UInt8} {i : ℕ}, m.toNat = 2 ^ i - 1 →
      (b &&& m).toUInt32.toNat = b.toNat % 2 ^ i := by
    intro m i hm
    rw [UInt8.toNat_toUInt32, UInt8.toNat_and, hm, Nat.and_two_pow_sub_one_eq_mod]
  have hlarge : 0xC0 ≤ b.toNat := by
    refine le_trans ?_ hge
    interval_cases n <;> decide
  refine ⟨?_, ?_, ?_⟩
  · rintro rfl
    exact absurd hlarge (by decide)
  · rw [UInt8.lt_iff_toNat_lt]
    exact not_lt.mpr (le_trans (by decide) hlarge)
  rw [ne_eq, ne_eq, and_E0_eq_iff, and_F0_eq_iff, and_F8_eq_iff, hand (i := 5) rfl,
    hand (i := 4) rfl, hand (i := 3) rfl]
  interval_cases n
  · change b.toNat < 0xE0 at hlt
    exact Or.inl ⟨rfl, ⟨hlarge, hlt⟩, by change _ = b.toNat - 0xC0; omega⟩
  · change 0xE0 ≤ b.toNat at hge
    change b.toNat < 0xF0 at hlt
    exact Or.inr (Or.inl ⟨rfl, by omega, ⟨hge, hlt⟩, by change _ = b.toNat - 0xE0; omega⟩)
  · change 0xF0 ≤ b.toNat at hge
    change b.toNat < 0xF8 at hlt
    exact Or.inr (Or.inr ⟨rfl, by omega, by omega, ⟨hge, hlt⟩, by change _ = b.toNat - 0xF0; omega⟩)

/-- The character of a leading byte, which `n` continuation bytes have to follow. -/
lemma utf8Decode_lead {b : UInt8} (hn : 0 < n) (hle : n ≤ 3) (hge : marker n ≤ b.toNat)
    (hlt : b.toNat < marker n + leads n) (s : List UInt8) :
    ∃ cp, utf8Decode (b :: s) = decodeExtra n cp s ∧ cp.toNat = b.toNat - marker n := by
  obtain ⟨hne, hnlt, hcase⟩ := lead_cases hn hle hge hlt
  rw [utf8Decode, List.headD_cons, List.tail_cons, if_neg hne, if_neg hnlt]
  rcases hcase with ⟨rfl, h₁, hcp⟩ | ⟨rfl, h₁, h₂, hcp⟩ | ⟨rfl, h₁, h₂, h₃, hcp⟩
  · rw [if_pos h₁]
    exact ⟨_, rfl, hcp⟩
  · rw [if_neg h₁, if_pos h₂]
    exact ⟨_, rfl, hcp⟩
  · rw [if_neg h₁, if_neg h₂, if_pos h₃]
    exact ⟨_, rfl, hcp⟩

/-- The checks of the length are one comparison. -/
lemma short_iff (hn : 0 < n) (hle : n ≤ 3) :
    n = 1 ∧ cp < 0x80 ∨ n = 2 ∧ cp < 0x800 ∨ n = 3 ∧ cp < 0x10000 ↔ cp.toNat < least n := by
  simp only [UInt32.lt_iff_toNat_lt, UInt32.reduceToNat]
  interval_cases n
  · change _ ↔ cp.toNat < 0x80
    omega
  · change _ ↔ cp.toNat < 0x800
    omega
  · change _ ↔ cp.toNat < 0x10000
    omega

/-- The checks pass exactly for the code points of characters of the right length. -/
lemma checkRune_eq (hn : 0 < n) (hle : n ≤ 3) (cp : UInt32) :
    checkRune n cp = if least n ≤ cp.toNat ∧ cp.isValidChar then cp else runeError := by
  have hshort := @short_iff cp n hn hle
  have hvalid : cp.isValidChar ↔ ¬(0xD800 ≤ cp ∧ cp ≤ 0xDFFF) ∧ ¬runeMax < cp := by
    simp only [UInt32.isValidChar, Nat.isValidChar, UInt32.le_iff_toNat_le, UInt32.lt_iff_toNat_lt,
      runeMax, UInt32.reduceToNat]
    omega
  by_cases h : least n ≤ cp.toNat ∧ cp.isValidChar
  · have hlong := hshort.not.mpr (not_lt.mpr h.1)
    rw [not_or, not_or] at hlong
    obtain ⟨hsurrogate, hmax⟩ := hvalid.mp h.2
    rw [if_pos h, checkRune, if_neg hlong.1, if_neg hlong.2.1, if_neg hlong.2.2, if_neg hsurrogate,
      if_neg hmax]
  · rw [if_neg h, checkRune]
    split_ifs with h₁ h₂ h₃ h₄ h₅
    · rfl
    · rfl
    · rfl
    · rfl
    · rfl
    · have hlong : ¬cp.toNat < least n := fun hlt => by
        rcases hshort.mpr hlt with h | h | h
        · exact h₁ h
        · exact h₂ h
        · exact h₃ h
      exact absurd ⟨not_lt.mp hlong, hvalid.mpr ⟨h₄, h₅⟩⟩ h

lemma room_of_lt {m : ℕ} (hle : n ≤ 3) (h : m < leads n) : (m + 1) * 64 ^ n ≤ 2 ^ 32 := by
  have hroom : leads n * 64 ^ n ≤ 2 ^ 32 := by interval_cases n <;> decide
  exact (Nat.mul_le_mul_right _ h).trans hroom

/-- `utf8_decode` reads the encoding of a character. -/
theorem utf8Decode_char (c : Char) (hzero : c.val ≠ 0) (rest : List UInt8) :
    utf8Decode (String.utf8EncodeChar c ++ rest) = (c.val, rest) := by
  obtain ⟨b, hencode, hb, hlt⟩ := exists_lead c
  rw [hencode, List.cons_append]
  rcases Nat.eq_zero_or_pos (extra c.val.toNat) with hn | hn
  · -- one byte
    rw [hn, Nat.pow_zero, Nat.div_one] at hb hlt
    change b.toNat = 0 + c.val.toNat at hb
    change c.val.toNat < 0x80 at hlt
    have hcp : b.toUInt32 = c.val := by
      apply UInt32.toNat_inj.mp
      rw [UInt8.toNat_toUInt32, hb, Nat.zero_add]
    have hne : b ≠ 0 := by
      rintro rfl
      exact hzero hcp.symm
    have hsmall : b < 0x80 := by
      rw [UInt8.lt_iff_toNat_lt, hb, Nat.zero_add]
      exact hlt
    rw [hn, continuation, List.nil_append, utf8Decode, List.headD_cons, List.tail_cons, if_neg hne,
      if_pos hsmall, hcp]
  · obtain ⟨cp, hdecode, hcp⟩ := @utf8Decode_lead _ b hn (extra_le _) (hb ▸ Nat.le_add_right _ _)
      (hb ▸ Nat.add_lt_add_left hlt _) (continuation (extra c.val.toNat) c.val.toNat ++ rest)
    rw [hb, Nat.add_sub_cancel_left] at hcp
    obtain ⟨w, hw, hval⟩ := decodeTail_continuation cp (extra c.val.toNat) c.val.toNat rest
      (room_of_lt (extra_le _) (hcp ▸ hlt))
    have hwc : w = c.val := by
      apply UInt32.toNat_inj.mp
      rw [hval, hcp]
      exact Nat.div_add_mod' _ _
    rw [hdecode, decodeExtra, hw]
    dsimp only
    rw [hwc, checkRune_eq hn (extra_le _), if_pos ⟨least_extra_le _, c.valid⟩]

/-- A code point that passes the checks comes from the encoding of the character. -/
lemma exists_char_of_extra {b : UInt8} {c₀ : UInt32} (hn : 0 < n) (hle : n ≤ 3)
    (hge : marker n ≤ b.toNat) (hlt : b.toNat < marker n + leads n)
    (hc₀ : c₀.toNat = b.toNat - marker n) (h : decodeExtra n c₀ s = (cp, s'))
    (hne : cp ≠ runeError) :
    ∃ c : Char, c.val = cp ∧ b :: s = String.utf8EncodeChar c ++ s' := by
  have hlead : c₀.toNat < leads n := by omega
  rw [decodeExtra] at h
  rcases htail : decodeTail n c₀ s with ⟨_ | w, t⟩
  · rw [htail] at h
    exact absurd (Prod.mk.inj h).1.symm hne
  · rw [htail] at h
    obtain ⟨hcheck, rfl⟩ := Prod.mk.inj h
    obtain ⟨htext, hdiv⟩ := decodeTail_some (room_of_lt hle hlead) htail
    rw [checkRune_eq hn hle] at hcheck
    by_cases hok : least n ≤ w.toNat ∧ w.isValidChar
    · rw [if_pos hok] at hcheck
      subst hcheck
      have hextra : extra w.toNat = n := extra_eq hle hok.1 (hdiv ▸ hlead)
      have hval : (⟨w, hok.2⟩ : Char).val = w := rfl
      refine ⟨⟨w, hok.2⟩, rfl, ?_⟩
      rw [encode_eq, hval, hextra, List.cons_append, ← htext, hdiv, hc₀, Nat.add_sub_cancel' hge,
        UInt8.ofNat_toNat]
    · rw [if_neg hok] at hcheck
      exact absurd hcheck.symm hne

/-- A byte that is no leading byte is an error. -/
lemma utf8Decode_stray {b : UInt8} (h : 0x80 ≤ b.toNat ∧ b.toNat < 0xC0 ∨ 0xF8 ≤ b.toNat)
    (s : List UInt8) : utf8Decode (b :: s) = (runeError, s) := by
  have hne : b ≠ 0 := by
    rintro rfl
    exact absurd h (by decide)
  have hlarge : ¬b < 0x80 := by
    rw [UInt8.lt_iff_toNat_lt]
    change ¬b.toNat < 0x80
    omega
  have h₁ := (and_E0_eq_iff b).not.mpr (by omega)
  have h₂ := (and_F0_eq_iff b).not.mpr (by omega)
  have h₃ := (and_F8_eq_iff b).not.mpr (by omega)
  rw [utf8Decode, List.headD_cons, List.tail_cons, if_neg hne, if_neg hlarge, if_neg h₁, if_neg h₂,
    if_neg h₃]

/-- Behind every byte but a zero `utf8_decode` reads a byte, a longer sequence or a stray byte. -/
lemma utf8Decode_cons (b : UInt8) (s : List UInt8) :
    (b = 0 ∧ utf8Decode (b :: s) = (runeEof, b :: s)) ∨
    (b ≠ 0 ∧ b.toNat < 0x80 ∧ utf8Decode (b :: s) = (b.toUInt32, s)) ∨
    (∃ n c₀, 0 < n ∧ n ≤ 3 ∧ marker n ≤ b.toNat ∧ b.toNat < marker n + leads n ∧
      c₀.toNat = b.toNat - marker n ∧ utf8Decode (b :: s) = decodeExtra n c₀ s) ∨
    utf8Decode (b :: s) = (runeError, s) := by
  have hlead : ∀ n, 0 < n → n ≤ 3 → marker n ≤ b.toNat → b.toNat < marker n + leads n →
      ∃ n c₀, 0 < n ∧ n ≤ 3 ∧ marker n ≤ b.toNat ∧ b.toNat < marker n + leads n ∧
        c₀.toNat = b.toNat - marker n ∧ utf8Decode (b :: s) = decodeExtra n c₀ s := by
    intro n hn hle hge hlt
    obtain ⟨c₀, hdecode, hc₀⟩ := utf8Decode_lead hn hle hge hlt s
    exact ⟨n, c₀, hn, hle, hge, hlt, hc₀, hdecode⟩
  by_cases hzero : b = 0
  · refine Or.inl ⟨hzero, ?_⟩
    rw [utf8Decode, List.headD_cons, if_pos hzero]
  by_cases h₀ : b.toNat < 0x80
  · refine Or.inr (Or.inl ⟨hzero, h₀, ?_⟩)
    have hlt : b < 0x80 := UInt8.lt_iff_toNat_lt.mpr h₀
    rw [utf8Decode, List.headD_cons, List.tail_cons, if_neg hzero, if_pos hlt]
  rcases lt_or_ge b.toNat 0xC0 with h₁ | h₁
  · exact Or.inr (Or.inr (Or.inr (utf8Decode_stray (Or.inl ⟨not_lt.mp h₀, h₁⟩) s)))
  rcases lt_or_ge b.toNat 0xE0 with h₂ | h₂
  · exact Or.inr (Or.inr (Or.inl (hlead 1 (by decide) (by decide) h₁ h₂)))
  rcases lt_or_ge b.toNat 0xF0 with h₃ | h₃
  · exact Or.inr (Or.inr (Or.inl (hlead 2 (by decide) (by decide) h₂ h₃)))
  rcases lt_or_ge b.toNat 0xF8 with h₄ | h₄
  · exact Or.inr (Or.inr (Or.inl (hlead 3 (by decide) (by decide) h₃ h₄)))
  · exact Or.inr (Or.inr (Or.inr (utf8Decode_stray (Or.inr h₄) s)))

/-- What `utf8_decode` returns is an error or the end, or comes from a character in front. -/
theorem exists_char_of_decode (h : utf8Decode s = (cp, s')) (hne : cp ≠ runeError)
    (heof : cp ≠ runeEof) :
    ∃ c : Char, c.val = cp ∧ s = String.utf8EncodeChar c ++ s' := by
  cases s with
  | nil =>
    rw [utf8Decode, List.headD_nil, if_pos rfl] at h
    exact absurd (Prod.mk.inj h).1.symm heof
  | cons b s =>
    rcases utf8Decode_cons b s with ⟨-, hd⟩ | ⟨-, hlt, hd⟩ | ⟨n, c₀, hn, hle, hge,
      hlt, hc₀, hd⟩ | hd
    · rw [hd] at h
      exact absurd (Prod.mk.inj h).1.symm heof
    · rw [hd] at h
      obtain ⟨rfl, rfl⟩ := Prod.mk.inj h
      have hval : b.toUInt32.toNat = b.toNat := UInt8.toNat_toUInt32 b
      have hvalid : b.toUInt32.isValidChar := Or.inl (by rw [hval]; omega)
      refine ⟨⟨b.toUInt32, hvalid⟩, rfl, ?_⟩
      have hextra : extra b.toUInt32.toNat = 0 := by
        rw [hval]
        exact if_pos hlt
      have hc : (⟨b.toUInt32, hvalid⟩ : Char).val = b.toUInt32 := rfl
      rw [encode_eq, hc, hextra, hval, Nat.pow_zero, Nat.div_one, marker, Nat.zero_add,
        UInt8.ofNat_toNat, continuation]
      rfl
    · rw [hd] at h
      exact exists_char_of_extra hn hle hge hlt hc₀ h hne
    · rw [hd] at h
      exact absurd (Prod.mk.inj h).1.symm hne

/-- The end is only found at a zero. -/
lemma utf8Decode_ne_eof (h : s.headD 0 ≠ 0) : (utf8Decode s).1 ≠ runeEof := by
  have hlarge : ∀ {cp : UInt32}, cp.toNat < 0x110000 → cp ≠ runeEof := by
    rintro _ hlt rfl
    exact absurd hlt (by decide)
  have herror : runeError ≠ runeEof := by decide
  cases s with
  | nil => exact absurd rfl h
  | cons b s =>
    rcases utf8Decode_cons b s with ⟨hzero, -⟩ | ⟨-, hlt, hd⟩ | ⟨n, c₀, hn, hle, -, -, -, hd⟩ | hd
    · exact absurd hzero h
    · rw [hd]
      exact hlarge (by rw [UInt8.toNat_toUInt32]; omega)
    · rw [hd, decodeExtra]
      rcases decodeTail n c₀ s with ⟨_ | w, t⟩
      · exact herror
      · dsimp only
        rw [checkRune_eq hn hle]
        split_ifs with hok
        · exact hlarge (toNat_lt ⟨w, hok.2⟩)
        · exact herror
    · rw [hd]
      exact herror

/-! ## Strings -/

lemma length_decodeTail_le (n : ℕ) (cp : UInt32) (s : List UInt8) :
    (decodeTail n cp s).2.length ≤ s.length := by
  induction n generalizing cp s with
  | zero => exact le_rfl
  | succ n ih =>
    rw [decodeTail]
    split_ifs
    · exact le_rfl
    · refine (ih _ _).trans ?_
      rw [List.length_tail]
      exact Nat.sub_le _ _

/-- In front of the terminator `utf8_decode` always advances. -/
lemma length_utf8Decode_lt (h : s.headD 0 ≠ 0) : (utf8Decode s).2.length < s.length := by
  cases s with
  | nil => exact absurd rfl h
  | cons b s =>
    rw [List.length_cons, Nat.lt_succ_iff]
    rcases utf8Decode_cons b s with ⟨hzero, -⟩ | ⟨-, -, hd⟩ | ⟨n, c₀, -, -, -, -, -, hd⟩ | hd
    · exact absurd hzero h
    · rw [hd]
    · have hle := length_decodeTail_le n c₀ s
      rw [hd, decodeExtra]
      rcases htail : decodeTail n c₀ s with ⟨_ | w, t⟩
      · rwa [htail] at hle
      · rwa [htail] at hle
    · rw [hd]

/-- The results of `utf8_decode`, up to the end of a string. -/
def decodeAll (s : List UInt8) : List UInt32 :=
  if s.headD 0 = 0 then [] else (utf8Decode s).1 :: decodeAll (utf8Decode s).2
termination_by s.length
decreasing_by exact length_utf8Decode_lt ‹_›

/-- A text is a sequence of encoded characters. -/
def WellFormed (s : List UInt8) : Prop := ∃ cs : List Char, s = cs.flatMap String.utf8EncodeChar

lemma isCont_iff {b : UInt8} : utf8IsCont b = true ↔ IsCont b := by
  rw [utf8IsCont, decide_eq_true_iff]
  exact and_C0_eq_iff b

/-- The first byte of a character is not zero, unless it is U+0000, and no continuation byte. -/
lemma exists_lead_ne_zero {c : Char} (hzero : c.val ≠ 0) : ∃ b, String.utf8EncodeChar c =
    b :: continuation (extra c.val.toNat) c.val.toNat ∧ b ≠ 0 ∧ utf8IsCont b = false := by
  obtain ⟨b, hencode, hb, hlt⟩ := exists_lead c
  have hpos : c.val.toNat ≠ 0 := fun h => hzero (UInt32.toNat_inj.mp h)
  have hrange : 0 < b.toNat ∧ (b.toNat < 0x80 ∨ 0xC0 ≤ b.toNat) := by
    rw [hb]
    have hle := extra_le c.val.toNat
    generalize extra c.val.toNat = n at hlt hle
    rcases Nat.eq_zero_or_pos n with rfl | hn
    · rw [Nat.pow_zero, Nat.div_one] at hlt ⊢
      change 0 < 0 + c.val.toNat ∧ (0 + c.val.toNat < 0x80 ∨ _)
      change c.val.toNat < 0x80 at hlt
      omega
    · have hmarker : 0xC0 ≤ marker n := by interval_cases n <;> decide
      have hge := hmarker.trans (Nat.le_add_right _ (c.val.toNat / 64 ^ n))
      exact ⟨Nat.lt_of_lt_of_le (by decide) hge, Or.inr hge⟩
  refine ⟨b, hencode, ?_, ?_⟩
  · rintro rfl
    exact absurd hrange.1 (by decide)
  · rw [Bool.eq_false_iff, ne_eq, isCont_iff, IsCont]
    omega

lemma zero_mem_encode_iff {c : Char} : 0 ∈ String.utf8EncodeChar c ↔ c.val = 0 := by
  constructor
  · intro h
    by_contra hzero
    obtain ⟨b, hencode, hb, -⟩ := exists_lead_ne_zero hzero
    rw [hencode] at h
    rcases List.mem_cons.mp h with h | h
    · exact hb h.symm
    · exact absurd (isCont_of_mem h).1 (by decide)
  · intro h
    obtain rfl : c = Char.ofNat 0 := Char.ext h
    decide

/-- A string without a zero has no U+0000 in it. -/
lemma val_ne_zero_of_not_mem {cs : List Char} (h : 0 ∉ cs.flatMap String.utf8EncodeChar) :
    ∀ c ∈ cs, c.val ≠ 0 := by
  intro c hc hzero
  exact h (List.mem_flatMap.mpr ⟨c, hc, zero_mem_encode_iff.mpr hzero⟩)

lemma headD_encode_ne_zero {c : Char} (hzero : c.val ≠ 0) (rest : List UInt8) :
    (String.utf8EncodeChar c ++ rest).headD 0 ≠ 0 := by
  obtain ⟨b, hencode, hb, -⟩ := exists_lead_ne_zero hzero
  rw [hencode]
  exact hb

/-- Decoding gives the code points of the characters. -/
theorem decodeAll_flatMap {cs : List Char} (h : ∀ c ∈ cs, c.val ≠ 0) :
    decodeAll (cs.flatMap String.utf8EncodeChar) = cs.map Char.val := by
  induction cs with
  | nil => rw [List.flatMap_nil, decodeAll, List.headD_nil, if_pos rfl, List.map_nil]
  | cons c cs ih =>
    have hc := h c List.mem_cons_self
    rw [List.flatMap_cons, decodeAll, if_neg (headD_encode_ne_zero hc _), utf8Decode_char c hc,
      List.map_cons, ih fun d hd => h d (List.mem_cons_of_mem _ hd)]

/-- Encoding the code points gives the characters back. -/
lemma flatMap_utf8Encode (cs : List Char) :
    (cs.map Char.val).flatMap utf8Encode = cs.flatMap String.utf8EncodeChar := by
  rw [List.flatMap_map]
  exact congrArg (fun f => cs.flatMap f) (funext utf8Encode_char)

lemma utf8Strlen_continuation {l : List UInt8} (h : ∀ b ∈ l, IsCont b) (rest : List UInt8) :
    utf8Strlen (l ++ rest) = utf8Strlen rest := by
  induction l with
  | nil => rfl
  | cons b l ih =>
    have hb := h b List.mem_cons_self
    have hne : b ≠ 0 := by
      rintro rfl
      exact absurd hb.1 (by decide)
    rw [List.cons_append, utf8Strlen, if_neg hne, if_pos (isCont_iff.mpr hb),
      ih fun d hd => h d (List.mem_cons_of_mem _ hd)]

/-- Counting the bytes that are no continuation bytes counts the characters. -/
theorem utf8Strlen_flatMap {cs : List Char} (h : ∀ c ∈ cs, c.val ≠ 0) :
    utf8Strlen (cs.flatMap String.utf8EncodeChar) = cs.length := by
  induction cs with
  | nil => rfl
  | cons c cs ih =>
    obtain ⟨b, hencode, hb, hcont⟩ := exists_lead_ne_zero (h c List.mem_cons_self)
    rw [List.flatMap_cons, hencode, List.cons_append, utf8Strlen, if_neg hb, hcont,
      if_neg Bool.false_ne_true, utf8Strlen_continuation fun d hd => isCont_of_mem hd,
      ih fun d hd => h d (List.mem_cons_of_mem _ hd), List.length_cons]

/-- `utf8_byte_len` is the number of bytes written. -/
lemma length_utf8Encode_char (c : Char) : (utf8Encode c.val).length = utf8ByteLen c.val := by
  rw [utf8Encode, utf8ByteLen]
  have hsurrogate : ¬(0xD800 ≤ c.val ∧ c.val ≤ 0xDFFF) := by
    rw [UInt32.le_iff_toNat_le, UInt32.le_iff_toNat_le]
    rcases c.valid with h | h
    · exact fun hand => absurd h (not_lt.mpr hand.1)
    · exact fun hand => absurd h.1 (not_lt.mpr hand.2)
  have hmax : c.val ≤ runeMax := UInt32.le_iff_toNat_le.mpr (Nat.le_of_lt_succ (toNat_lt c))
  rw [if_neg hsurrogate, if_neg hsurrogate, if_pos hmax, if_pos hmax]
  split_ifs <;> rfl

end Rune

end CoolFrost

import Mathlib.Tactic

/-!
# UTF-8 sequences

The UTF-8 encoding of a character as a leading byte and continuation bytes.  A continuation byte
carries a digit in base 64, and the leading byte what is left of the code point together with the
number of bytes that follow it.
-/

namespace Utf8

variable {b : UInt8} {c : Char} {n v : ℕ}

/-- A continuation byte. -/
def IsCont (b : UInt8) : Prop := 0x80 ≤ b.toNat ∧ b.toNat < 0xC0

/-- The number of continuation bytes of a code point. -/
def extra (v : ℕ) : ℕ := if v < 0x80 then 0 else if v < 0x800 then 1
    else if v < 0x10000 then 2 else 3

/-- The first leading byte that `n` continuation bytes follow. -/
def marker : ℕ → ℕ
  | 0 => 0
  | 1 => 0xC0
  | 2 => 0xE0
  | _ => 0xF0

/-- The number of leading bytes that `n` continuation bytes follow. -/
def leads : ℕ → ℕ
  | 0 => 0x80
  | 1 => 0x20
  | 2 => 0x10
  | _ => 0x08

/-- The least code point that `n` continuation bytes are used for. -/
def least : ℕ → ℕ
  | 0 => 0
  | 1 => 0x80
  | 2 => 0x800
  | _ => 0x10000

/-- The last `n` digits of a number in base 64, as continuation bytes. -/
def continuation : ℕ → ℕ → List UInt8
  | 0, _ => []
  | n + 1, v => UInt8.ofNat (0x80 + v / 64 ^ n % 64) :: continuation n v

/-! ## Continuation bytes -/

lemma toNat_ofNat_cont (v : ℕ) : (UInt8.ofNat (0x80 + v % 64)).toNat = 0x80 + v % 64 :=
  UInt8.toNat_ofNat_of_lt' (by change _ < 256; omega)

lemma isCont_ofNat (v : ℕ) : IsCont (UInt8.ofNat (0x80 + v % 64)) := by
  rw [IsCont, toNat_ofNat_cont]
  omega

lemma isCont_of_mem (h : b ∈ continuation n v) : IsCont b := by
  induction n with
  | zero => cases h
  | succ n ih =>
    rcases List.mem_cons.mp h with rfl | hb
    · exact isCont_ofNat _
    · exact ih hb

/-! ## Characters -/

/-- A code point has digits for its continuation bytes, and the leading byte has room for the
rest. -/
lemma div_pow_extra_lt (hv : v < 0x110000) : v / 64 ^ extra v < leads (extra v) := by
  unfold extra
  split_ifs with h₁ h₂ h₃
  · rw [Nat.pow_zero, Nat.div_one]
    exact h₁
  · change v / 64 < 32
    omega
  · change v / 4096 < 16
    omega
  · change v / 262144 < 8
    omega

lemma extra_le (v : ℕ) : extra v ≤ 3 := by
  unfold extra
  split_ifs <;> decide

lemma least_extra_le (v : ℕ) : least (extra v) ≤ v := by
  unfold extra
  split_ifs with h₁ h₂ h₃
  · exact Nat.zero_le _
  · exact not_lt.mp h₁
  · exact not_lt.mp h₂
  · exact not_lt.mp h₃

/-- The number of continuation bytes is determined by the range of a code point. -/
lemma extra_eq (hn : n ≤ 3) (hge : least n ≤ v) (hlt : v / 64 ^ n < leads n) : extra v = n := by
  unfold extra
  interval_cases n
  · rw [Nat.pow_zero, Nat.div_one] at hlt
    exact if_pos hlt
  · change 0x80 ≤ v at hge
    change v / 64 < 32 at hlt
    rw [if_neg (by omega), if_pos (by omega)]
  · change 0x800 ≤ v at hge
    change v / 4096 < 16 at hlt
    rw [if_neg (by omega), if_neg (by omega), if_pos (by omega)]
  · change 0x10000 ≤ v at hge
    rw [if_neg (by omega), if_neg (by omega), if_neg (by omega)]

lemma toNat_lt (c : Char) : c.val.toNat < 0x110000 := by
  rcases c.valid with h | h
  · exact h.trans (by decide)
  · exact h.2

/-- The encoding of a character: its leading byte and its continuation bytes. -/
theorem encode_eq (c : Char) :
    String.utf8EncodeChar c =
      UInt8.ofNat (marker (extra c.val.toNat) + c.val.toNat / 64 ^ extra c.val.toNat) ::
        continuation (extra c.val.toNat) c.val.toNat := by
  have hlt := toNat_lt c
  rw [String.utf8EncodeChar]
  generalize c.val.toNat = v at hlt ⊢
  unfold extra
  by_cases h₁ : v < 0x80
  · rw [if_pos (show v ≤ 0x7f by omega), if_pos h₁]
    simp [continuation, marker]
  by_cases h₂ : v < 0x800
  · rw [if_neg (show ¬v ≤ 0x7f by omega), if_pos (show v ≤ 0x7ff by omega), if_neg h₁, if_pos h₂]
    have hlead : v / 64 % 0x20 = v / 64 := Nat.mod_eq_of_lt (by omega)
    simp [continuation, marker, hlead, Nat.add_comm]
  by_cases h₃ : v < 0x10000
  · rw [if_neg (show ¬v ≤ 0x7f by omega), if_neg (show ¬v ≤ 0x7ff by omega),
      if_pos (show v ≤ 0xffff by omega), if_neg h₁, if_neg h₂, if_pos h₃]
    have hlead : v / 4096 % 0x10 = v / 4096 := Nat.mod_eq_of_lt (by omega)
    simp [continuation, marker, hlead, Nat.add_comm]
  · rw [if_neg (show ¬v ≤ 0x7f by omega), if_neg (show ¬v ≤ 0x7ff by omega),
      if_neg (show ¬v ≤ 0xffff by omega), if_neg h₁, if_neg h₂, if_neg h₃]
    have hlead : v / 262144 % 0x08 = v / 262144 := Nat.mod_eq_of_lt (by omega)
    simp [continuation, marker, hlead, Nat.add_comm]

/-- The leading byte, and how many bytes follow it. -/
lemma exists_lead (c : Char) : ∃ b, String.utf8EncodeChar c =
    b :: continuation (extra c.val.toNat) c.val.toNat ∧
    b.toNat = marker (extra c.val.toNat) + c.val.toNat / 64 ^ extra c.val.toNat ∧
    c.val.toNat / 64 ^ extra c.val.toNat < leads (extra c.val.toNat) := by
  have hlt := div_pow_extra_lt (toNat_lt c)
  have hmarker : ∀ n, marker n + leads n ≤ 256 := by
    intro n
    rcases n with _ | _ | _ | n
    · decide
    · decide
    · decide
    · exact (by decide : 0xF0 + 0x08 ≤ 256)
  refine ⟨_, encode_eq c, ?_, hlt⟩
  have hle := hmarker (extra c.val.toNat)
  exact UInt8.toNat_ofNat_of_lt' (by change _ < 256; omega)

end Utf8

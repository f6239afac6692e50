import CoolFrost.Libc.Utf8

/-!
# UTF-8 on the screen

`output_utf8_byte` (`drivers/screen.c`) decodes one byte at a time and renders a code point when its
last byte has come.  What it renders of a text are the code points that `utf8_decode` returns.
-/

namespace CoolFrost

open Utf8

namespace Rune

/-- `utf8_cp` and `utf8_rem`. -/
structure Pending where
  cp : UInt32
  rem : ℕ

/-- What is printed: a character by `do_print_char`, or the glyph for a code point. -/
inductive Printed
  | char (c : UInt8)
  | glyph (cp : UInt32)

/-- `render_codepoint`. -/
def renderCodepoint (useFb : Bool) (cp : UInt32) : Printed :=
  if cp < 256 then .char cp.toUInt8
  else if !useFb then .char 0x3F
  else .glyph cp

/-- `output_utf8_byte` without a pending sequence. -/
def outputStart (p : Pending) (b : UInt8) : Pending × List Printed :=
  if b < 0x80 then (p, [.char b])
  else if b &&& 0xE0 = 0xC0 then (⟨(b &&& 0x1F).toUInt32, 1⟩, [])
  else if b &&& 0xF0 = 0xE0 then (⟨(b &&& 0x0F).toUInt32, 2⟩, [])
  else if b &&& 0xF8 = 0xF0 then (⟨(b &&& 0x07).toUInt32, 3⟩, [])
  else (p, [])

/-- `output_utf8_byte`. -/
def outputUtf8Byte (useFb : Bool) (p : Pending) (b : UInt8) : Pending × List Printed :=
  if 0 < p.rem then
    if b &&& 0xC0 = 0x80 then
      let cp := p.cp <<< 6 ||| (b &&& 0x3F).toUInt32
      (⟨cp, p.rem - 1⟩, if p.rem - 1 = 0 then [renderCodepoint useFb cp] else [])
    else outputStart ⟨0, 0⟩ b
  else outputStart p b

/-- The loop of `kprint_at_attr`: the bytes of a message. -/
def output (useFb : Bool) : Pending → List UInt8 → Pending × List Printed
  | p, [] => (p, [])
  | p, b :: s =>
    let (p', l) := outputUtf8Byte useFb p b
    let (p'', l') := output useFb p' s
    (p'', l ++ l')

/-! ## What is printed -/

variable {useFb : Bool} {p : Pending} {n v : ℕ} {s : List UInt8}

lemma output_cons (useFb : Bool) (p : Pending) (b : UInt8) (s : List UInt8) :
    (output useFb p (b :: s)).2 = (outputUtf8Byte useFb p b).2 ++
      (output useFb (outputUtf8Byte useFb p b).1 s).2 := rfl

/-- The leading byte of a sequence leaves as many bytes pending as follow it. -/
lemma outputStart_lead {b : UInt8} (hn : 0 < n) (hle : n ≤ 3) (hge : marker n ≤ b.toNat)
    (hlt : b.toNat < marker n + leads n) (p : Pending) :
    ∃ cp, outputStart p b = (⟨cp, n⟩, []) ∧ cp.toNat = b.toNat - marker n := by
  obtain ⟨-, hnlt, hcase⟩ := lead_cases hn hle hge hlt
  rw [outputStart, if_neg hnlt]
  rcases hcase with ⟨rfl, h₁, hcp⟩ | ⟨rfl, h₁, h₂, hcp⟩ | ⟨rfl, h₁, h₂, h₃, hcp⟩
  · rw [if_pos h₁]
    exact ⟨_, rfl, hcp⟩
  · rw [if_neg h₁, if_pos h₂]
    exact ⟨_, rfl, hcp⟩
  · rw [if_neg h₁, if_neg h₂, if_pos h₃]
    exact ⟨_, rfl, hcp⟩

/-- The continuation bytes complete the code point, which is rendered with the last one. -/
lemma output_continuation (useFb : Bool) (v : ℕ) {cp : UInt32}
    (hroom : (cp.toNat + 1) * 64 ^ (n + 1) ≤ 2 ^ 32) (s : List UInt8) :
    ∃ w, w.toNat = cp.toNat * 64 ^ (n + 1) + v % 64 ^ (n + 1) ∧
      (output useFb ⟨cp, n + 1⟩ (continuation (n + 1) v ++ s)).2 =
        renderCodepoint useFb w :: (output useFb ⟨w, 0⟩ s).2 := by
  induction n generalizing cp with
  | zero =>
    obtain ⟨hcont, w, hpush, hw, -⟩ := push_digit hroom v
    refine ⟨w, ?_, ?_⟩
    · rw [hw, ← mul_add_digits, Nat.pow_zero, Nat.mod_one, Nat.mul_one, Nat.add_zero]
    · rw [continuation, List.cons_append, output_cons, outputUtf8Byte, if_pos (Nat.succ_pos 0),
        if_pos hcont, hpush]
      rfl
  | succ n ih =>
    obtain ⟨hcont, cp', hpush, hcp, hmore⟩ := push_digit hroom v
    obtain ⟨w, hval, hout⟩ := ih hmore
    refine ⟨w, ?_, ?_⟩
    · rw [hval, hcp]
      exact mul_add_digits _ _ _
    · rw [continuation, List.cons_append, output_cons, outputUtf8Byte, if_pos (Nat.succ_pos _),
        if_pos hcont, hpush]
      exact hout

/-- The bytes of a character render it. -/
lemma output_char (useFb : Bool) (c : Char) (hrem : p.rem = 0) (s : List UInt8) :
    ∃ p', p'.rem = 0 ∧ (output useFb p (String.utf8EncodeChar c ++ s)).2 =
      renderCodepoint useFb c.val :: (output useFb p' s).2 := by
  have hidle : ¬0 < p.rem := by rw [hrem]; exact lt_irrefl 0
  obtain ⟨b, hencode, hb, hlt⟩ := exists_lead c
  rw [hencode, List.cons_append, output_cons, outputUtf8Byte, if_neg hidle]
  rcases hn : extra c.val.toNat with _ | n
  · -- one byte, which is printed as it is
    rw [hn, Nat.pow_zero, Nat.div_one] at hb hlt
    change b.toNat = 0 + c.val.toNat at hb
    change c.val.toNat < 0x80 at hlt
    have hsmall : b < 0x80 := UInt8.lt_iff_toNat_lt.mpr (by rw [hb, Nat.zero_add]; exact hlt)
    have hcp : c.val < 256 := UInt32.lt_iff_toNat_lt.mpr (hlt.trans (by decide))
    have hbyte : b = c.val.toUInt8 := by
      apply UInt8.toNat_inj.mp
      rw [hb, UInt32.toNat_toUInt8]
      omega
    refine ⟨p, hrem, ?_⟩
    rw [outputStart, if_pos hsmall, renderCodepoint, if_pos hcp, hbyte]
    rfl
  · have hle := extra_le c.val.toNat
    rw [hn] at hb hlt hle
    obtain ⟨cp, hstart, hcp⟩ := outputStart_lead (Nat.succ_pos n) hle (hb ▸ Nat.le_add_right _ _)
      (hb ▸ Nat.add_lt_add_left hlt _) p
    rw [hb, Nat.add_sub_cancel_left] at hcp
    obtain ⟨w, hval, hout⟩ := output_continuation useFb c.val.toNat
      (room_of_lt hle (hcp ▸ hlt)) s
    have hwc : w = c.val := by
      apply UInt32.toNat_inj.mp
      rw [hval, hcp]
      exact Nat.div_add_mod' _ _
    rw [hwc] at hout
    refine ⟨⟨c.val, 0⟩, rfl, ?_⟩
    rw [hstart]
    exact hout

/-- A text renders its characters one by one. -/
lemma output_flatMap (useFb : Bool) (cs : List Char) (hrem : p.rem = 0) :
    (output useFb p (cs.flatMap String.utf8EncodeChar)).2 =
      (cs.map Char.val).map (renderCodepoint useFb) := by
  induction cs generalizing p with
  | nil => rfl
  | cons c cs ih =>
    obtain ⟨p', hp', hout⟩ := output_char useFb c hrem (cs.flatMap String.utf8EncodeChar)
    rw [List.flatMap_cons, hout, ih hp']
    rfl

/-- On a framebuffer different code points are rendered differently. -/
lemma renderCodepoint_injective : Function.Injective (renderCodepoint true) := by
  intro a b h
  rw [renderCodepoint, renderCodepoint] at h
  by_cases ha : a < 256
  · by_cases hb : b < 256
    · rw [if_pos ha, if_pos hb] at h
      have hbyte := congrArg UInt8.toNat (Printed.char.inj h)
      rw [UInt32.toNat_toUInt8, UInt32.toNat_toUInt8] at hbyte
      have ha' : a.toNat < 256 := UInt32.lt_iff_toNat_lt.mp ha
      have hb' : b.toNat < 256 := UInt32.lt_iff_toNat_lt.mp hb
      exact UInt32.toNat_inj.mp (by omega)
    · rw [if_pos ha, if_neg hb] at h
      cases h
  · by_cases hb : b < 256
    · rw [if_neg ha, if_pos hb] at h
      cases h
    · rw [if_neg ha, if_neg hb] at h
      exact Printed.glyph.inj h

/-- The four codecs agree: `utf8_decode` reads what `utf8_encode` has written, and of a well-formed
text `utf8_decode` returns the code points that encode to it, that `utf8_strlen` counts and that the
screen renders. -/
theorem utf8_codecs_agree :
    (∀ c : Char, c.val ≠ 0 → ∀ rest,
      utf8Decode (utf8Encode c.val ++ rest) = (c.val, rest) ∧
        (utf8Encode c.val).length = utf8ByteLen c.val) ∧
    ∀ s, WellFormed s → 0 ∉ s →
      (decodeAll s).flatMap utf8Encode = s ∧ utf8Strlen s = (decodeAll s).length ∧
        ∀ (useFb : Bool) (p : Pending), p.rem = 0 →
          (output useFb p s).2 = (decodeAll s).map (renderCodepoint useFb) := by
  refine ⟨fun c hzero rest => ⟨?_, length_utf8Encode_char c⟩, ?_⟩
  · rw [utf8Encode_char]
    exact utf8Decode_char c hzero rest
  · rintro s ⟨cs, rfl⟩ hs
    have hcs := val_ne_zero_of_not_mem hs
    rw [decodeAll_flatMap hcs, List.length_map]
    exact ⟨flatMap_utf8Encode cs, utf8Strlen_flatMap hcs,
      fun useFb p hrem => output_flatMap useFb cs hrem⟩

/-- The euro sign. -/
theorem utf8_codecs_agree_euro :
    utf8Decode (utf8Encode 0x20AC ++ []) = (0x20AC, []) ∧
      (decodeAll [0xE2, 0x82, 0xAC]).flatMap utf8Encode = [0xE2, 0x82, 0xAC] := by
  obtain ⟨hchar, htext⟩ := utf8_codecs_agree
  have heuro : WellFormed [0xE2, 0x82, 0xAC] := ⟨['€'], by decide⟩
  exact ⟨(hchar '€' (by decide) []).1, (htext _ heuro (by decide)).1⟩

end Rune

end CoolFrost

import CoolFrost.Libc.Parsing
import CoolFrost.Net.Net

/-!
# Addresses in text

`net_parse_ip` (`net/net.c`).  A string is its text without the terminator.  The function accepts a
text in which four groups of digits are separated by dots, but does not ask that there be digits in
each group, or that the text end behind the last one.
-/

namespace CoolFrost

open Stdio

namespace IpAddr

/-- Change the byte with index `i`. -/
def set (a : IpAddr) (i : ℕ) (v : UInt8) : IpAddr :=
  match i with
  | 0 => { a with b0 := v }
  | 1 => { a with b1 := v }
  | 2 => { a with b2 := v }
  | _ => { a with b3 := v }

end IpAddr

namespace Net

/-! ## The function -/

/-- What `net_parse_ip` does behind its loop: the result, and `out` afterwards. -/
def finishIp (octet idx : ℕ) (out : IpAddr) : ℤ × IpAddr :=
  if idx ≠ 3 then (-1, out) else (0, out.set 3 (UInt8.ofNat octet))

/-- The loop of `net_parse_ip`. -/
def parseIpLoop : List UInt8 → ℕ → ℕ → IpAddr → ℤ × IpAddr
  | [], octet, idx, out => finishIp octet idx out
  | c :: s, octet, idx, out =>
    if isdigit c then
      let octet := octet * 10 + (c - ch '0').toNat
      if 255 < octet then (-1, out) else parseIpLoop s octet idx out
    else if c = ch '.' ∧ idx < 3 then parseIpLoop s 0 (idx + 1) (out.set idx (UInt8.ofNat octet))
    else finishIp octet idx out

/-- `net_parse_ip`. -/
def netParseIp (s : List UInt8) (out : IpAddr) : ℤ × IpAddr := parseIpLoop s 0 0 out

/-! ## Dotted quads -/

/-- Decimal digits, perhaps none, that stand for an octet. -/
def IsOctet (t : List UInt8) (b : UInt8) : Prop :=
  (∀ c ∈ t, isdigit c) ∧ Numeral.value 10 (t.map digitVal) = b.toNat

/-- The text starts with four groups of digits, separated by dots, and no digit follows. -/
structure Groups (s t₀ t₁ t₂ t₃ rest : List UInt8) (a : IpAddr) : Prop where
  text : s = t₀ ++ ch '.' :: (t₁ ++ ch '.' :: (t₂ ++ ch '.' :: (t₃ ++ rest)))
  first : IsOctet t₀ a.b0
  second : IsOctet t₁ a.b1
  third : IsOctet t₂ a.b2
  fourth : IsOctet t₃ a.b3
  stop : ∀ c ∈ rest.head?, isdigit c = false

/-- The groups are numbers, and the text ends behind them. -/
def Complete (t₀ t₁ t₂ t₃ rest : List UInt8) : Prop :=
  t₀ ≠ [] ∧ t₁ ≠ [] ∧ t₂ ≠ [] ∧ t₃ ≠ [] ∧ rest = []

/-- The whole text is four decimal numbers of at most 255, separated by dots. -/
def DottedQuad (s : List UInt8) (a : IpAddr) : Prop :=
  ∃ t₀ t₁ t₂ t₃ rest, Groups s t₀ t₁ t₂ t₃ rest a ∧ Complete t₀ t₁ t₂ t₃ rest

/-! ## What is accepted -/

variable {s t t₀ t₁ t₂ t₃ rest : List UInt8} {a out : IpAddr} {idx : ℕ}

lemma sub_zero_toNat {c : UInt8} (h : isdigit c) : (c - ch '0').toNat = digitVal c := by
  have heq := (digitVal_lt h).2
  rwa [UInt8.toNat_toUInt64] at heq

/-- A group of digits is read as a number, as long as it is at most 255. -/
lemma parseIpLoop_digits (ht : ∀ c ∈ t, isdigit c) {octet : ℕ} (ho : octet ≤ 255) :
    parseIpLoop (t ++ s) octet idx out =
      if Numeral.valueFrom 10 octet (t.map digitVal) ≤ 255 then
        parseIpLoop s (Numeral.valueFrom 10 octet (t.map digitVal)) idx out
      else (-1, out) := by
  induction t generalizing octet with
  | nil => rw [List.map_nil, Numeral.valueFrom_nil, if_pos ho, List.nil_append]
  | cons c t ih =>
    have hc := ht c List.mem_cons_self
    rw [List.cons_append, parseIpLoop, if_pos hc, List.map_cons, Numeral.valueFrom_cons,
      sub_zero_toNat hc]
    dsimp only
    by_cases hover : 255 < octet * 10 + digitVal c
    · have hmore := Numeral.le_valueFrom (b := 10) (by decide) (octet * 10 + digitVal c)
        (t.map digitVal)
      rw [if_pos hover, if_neg (by omega)]
    · rw [if_neg hover]
      exact ih (fun b hb => ht b (List.mem_cons_of_mem _ hb)) (by omega)

/-- What follows a group of digits, up to its end. -/
lemma parseIpLoop_group {b : UInt8} (h : IsOctet t b) :
    parseIpLoop (t ++ s) 0 idx out = parseIpLoop s b.toNat idx out := by
  have hle : b.toNat ≤ 255 := Nat.le_of_lt_succ b.toNat_lt
  rw [parseIpLoop_digits h.1 (Nat.zero_le _)]
  change (if Numeral.value 10 (t.map digitVal) ≤ 255 then
    parseIpLoop s (Numeral.value 10 (t.map digitVal)) idx out else (-1, out)) = _
  rw [h.2, if_pos hle]

/-- A group with a dot behind it. -/
lemma parseIpLoop_dot {b : UInt8} (h : IsOctet t b) (hidx : idx < 3) :
    parseIpLoop (t ++ ch '.' :: s) 0 idx out = parseIpLoop s 0 (idx + 1) (out.set idx b) := by
  have hdot : isdigit (ch '.') = false := by decide
  rw [parseIpLoop_group h, parseIpLoop, hdot, if_neg Bool.false_ne_true, if_pos ⟨rfl, hidx⟩,
    UInt8.ofNat_toNat]

/-- Behind the third dot the loop ends with the digits. -/
lemma parseIpLoop_stop (hstop : ∀ c ∈ s.head?, isdigit c = false) {octet : ℕ} :
    parseIpLoop s octet 3 out = finishIp octet 3 out := by
  cases s with
  | nil => rfl
  | cons c s =>
    rw [parseIpLoop, hstop c rfl, if_neg Bool.false_ne_true,
      if_neg fun h => absurd h.2 (lt_irrefl 3)]

/-- Four groups are accepted, whatever follows. -/
lemma netParseIp_of_groups (h : Groups s t₀ t₁ t₂ t₃ rest a) (out : IpAddr) :
    netParseIp s out = (0, a) := by
  rw [netParseIp, h.text, parseIpLoop_dot h.first (by decide), parseIpLoop_dot h.second (by decide),
    parseIpLoop_dot h.third (by decide), parseIpLoop_group h.fourth, parseIpLoop_stop h.stop,
    finishIp, if_neg (by decide), UInt8.ofNat_toNat]
  rfl

/-- A text in two parts: the digits at its front, and what follows them. -/
lemma exists_digits (s : List UInt8) : ∃ t r, s = t ++ r ∧ (∀ c ∈ t, isdigit c) ∧
    ∀ c ∈ r.head?, isdigit c = false := by
  refine ⟨s.takeWhile isdigit, s.dropWhile isdigit, List.takeWhile_append_dropWhile.symm,
    fun c hc => List.mem_takeWhile_imp hc, fun c hc => ?_⟩
  have hnot := List.head?_dropWhile_not isdigit s
  rw [Option.mem_def.mp hc] at hnot
  simpa using hnot

/-- A text that is accepted starts with a group of digits. -/
lemma exists_group (h : (parseIpLoop s 0 idx out).1 = 0) : ∃ t r b, s = t ++ r ∧ IsOctet t b ∧
    (∀ c ∈ r.head?, isdigit c = false) ∧ (parseIpLoop r b.toNat idx out).1 = 0 := by
  obtain ⟨t, r, rfl, ht, hr⟩ := exists_digits s
  rw [parseIpLoop_digits ht (Nat.zero_le _)] at h
  by_cases hle : Numeral.valueFrom 10 0 (t.map digitVal) ≤ 255
  · have hval : (UInt8.ofNat (Numeral.value 10 (t.map digitVal))).toNat =
        Numeral.value 10 (t.map digitVal) := UInt8.toNat_ofNat_of_lt' (Nat.lt_succ_of_le hle)
    rw [if_pos hle] at h
    refine ⟨t, r, _, rfl, ⟨ht, hval.symm⟩, hr, ?_⟩
    rwa [hval]
  · rw [if_neg hle] at h
    cases h

/-- In front of the third dot, a dot has to follow. -/
lemma exists_dot (hidx : idx < 3) (h : (parseIpLoop s 0 idx out).1 = 0) :
    ∃ t r b, s = t ++ ch '.' :: r ∧ IsOctet t b ∧
      (parseIpLoop r 0 (idx + 1) (out.set idx b)).1 = 0 := by
  obtain ⟨t, r, b, rfl, hb, hr, hrest⟩ := exists_group h
  have hfinish : ∀ octet, (finishIp octet idx out).1 = -1 := by
    intro octet
    rw [finishIp, if_pos hidx.ne]
  cases r with
  | nil =>
    rw [parseIpLoop, hfinish] at hrest
    exact absurd hrest (by decide)
  | cons c r =>
    rw [parseIpLoop, hr c rfl, if_neg Bool.false_ne_true] at hrest
    by_cases hc : c = ch '.' ∧ idx < 3
    · rw [if_pos hc, UInt8.ofNat_toNat] at hrest
      obtain ⟨rfl, -⟩ := hc
      exact ⟨t, r, b, rfl, hb, hrest⟩
    · rw [if_neg hc, hfinish] at hrest
      exact absurd hrest (by decide)

/-- Nothing but texts that start with four groups is accepted. -/
lemma exists_groups (h : (netParseIp s out).1 = 0) :
    ∃ t₀ t₁ t₂ t₃ rest a, Groups s t₀ t₁ t₂ t₃ rest a := by
  obtain ⟨t₀, r₀, b₀, rfl, h₀, hr₀⟩ := exists_dot (by decide) h
  obtain ⟨t₁, r₁, b₁, rfl, h₁, hr₁⟩ := exists_dot (by decide) hr₀
  obtain ⟨t₂, r₂, b₂, rfl, h₂, hr₂⟩ := exists_dot (by decide) hr₁
  obtain ⟨t₃, rest, b₃, rfl, h₃, hstop, -⟩ := exists_group hr₂
  exact ⟨t₀, t₁, t₂, t₃, rest, ⟨b₀, b₁, b₂, b₃⟩, rfl, h₀, h₁, h₂, h₃, hstop⟩

/-- The result is 0 or -1. -/
lemma netParseIp_result (s : List UInt8) (out : IpAddr) :
    (netParseIp s out).1 = 0 ∨ (netParseIp s out).1 = -1 := by
  have hfinish : ∀ octet idx out, (finishIp octet idx out).1 = 0 ∨
      (finishIp octet idx out).1 = -1 := by
    intro octet idx out
    rw [finishIp]
    split_ifs
    · exact Or.inr rfl
    · exact Or.inl rfl
  have hloop : ∀ s octet idx out, (parseIpLoop s octet idx out).1 = 0 ∨
      (parseIpLoop s octet idx out).1 = -1 := by
    intro s
    induction s with
    | nil => exact hfinish
    | cons c s ih =>
      intro octet idx out
      rw [parseIpLoop]
      dsimp only
      split_ifs
      · exact Or.inr rfl
      · exact ih _ _ _
      · exact ih _ _ _
      · exact hfinish _ _ _
  exact hloop s 0 0 out

/-! ## What should be accepted -/

/-- The digits at the front of a text end in one place only. -/
lemma digits_unique {t t' r r' : List UInt8} (heq : t ++ r = t' ++ r') (ht : ∀ c ∈ t, isdigit c)
    (ht' : ∀ c ∈ t', isdigit c) (hr : ∀ c ∈ r.head?, isdigit c = false)
    (hr' : ∀ c ∈ r'.head?, isdigit c = false) : t = t' ∧ r = r' := by
  have hsplit : ∀ {t r : List UInt8}, (∀ c ∈ t, isdigit c) → (∀ c ∈ r.head?, isdigit c = false) →
      (t ++ r).takeWhile isdigit = t := by
    intro t r ht hr
    rw [List.takeWhile_append_of_pos ht]
    cases r with
    | nil => rw [List.takeWhile_nil, List.append_nil]
    | cons c r => rw [List.takeWhile_cons_of_neg (by simp [hr c rfl]), List.append_nil]
  have htt : t = t' := by rw [← hsplit ht hr, heq, hsplit ht' hr']
  subst htt
  exact ⟨rfl, List.append_cancel_left heq⟩

/-- The groups that a text starts with are determined by it. -/
lemma Groups.complete_congr {u₀ u₁ u₂ u₃ rest' : List UInt8} {a' : IpAddr}
    (h : Groups s t₀ t₁ t₂ t₃ rest a) (h' : Groups s u₀ u₁ u₂ u₃ rest' a')
    (hcomplete : Complete u₀ u₁ u₂ u₃ rest') : Complete t₀ t₁ t₂ t₃ rest := by
  have hdot : ∀ {r : List UInt8}, ∀ c ∈ (ch '.' :: r).head?, isdigit c = false := by
    intro r c hc
    obtain rfl := Option.some.inj hc
    decide
  obtain ⟨rfl, heq₀⟩ := digits_unique (h.text.symm.trans h'.text) h.first.1 h'.first.1 hdot hdot
  obtain ⟨rfl, heq₁⟩ := digits_unique (List.cons.inj heq₀).2 h.second.1 h'.second.1 hdot hdot
  obtain ⟨rfl, heq₂⟩ := digits_unique (List.cons.inj heq₁).2 h.third.1 h'.third.1 hdot hdot
  obtain ⟨rfl, rfl⟩ := digits_unique (List.cons.inj heq₂).2 h.fourth.1 h'.fourth.1 h.stop h'.stop
  exact hcomplete

/-- `net_parse_ip` accepts the text exactly if it is a dotted quad, and then stores the address. -/
def Parses (s : List UInt8) (out : IpAddr) : Prop :=
  ((netParseIp s out).1 = 0 ↔ ∃ a, DottedQuad s a) ∧
    ((netParseIp s out).1 ≠ 0 → (netParseIp s out).1 = -1) ∧
    ∀ a, DottedQuad s a → netParseIp s out = (0, a)

/-- The text is handled as it should be exactly if the four groups that it may start with are
numbers and make up all of it. -/
theorem parses_iff (s : List UInt8) (out : IpAddr) :
    Parses s out ↔ ∀ t₀ t₁ t₂ t₃ rest a, Groups s t₀ t₁ t₂ t₃ rest a →
    Complete t₀ t₁ t₂ t₃ rest := by
  constructor
  · rintro ⟨hiff, -, -⟩ t₀ t₁ t₂ t₃ rest a h
    obtain ⟨a', u₀, u₁, u₂, u₃, rest', h', hcomplete⟩ :=
      hiff.mp (congrArg Prod.fst (netParseIp_of_groups h out))
    exact h.complete_congr h' hcomplete
  · intro hcomplete
    refine ⟨⟨fun hzero => ?_, ?_⟩, (netParseIp_result s out).resolve_left, ?_⟩
    · obtain ⟨t₀, t₁, t₂, t₃, rest, a, h⟩ := exists_groups hzero
      exact ⟨a, t₀, t₁, t₂, t₃, rest, h, hcomplete _ _ _ _ _ _ h⟩
    · rintro ⟨a, t₀, t₁, t₂, t₃, rest, h, -⟩
      rw [netParseIp_of_groups h]
    · rintro a ⟨t₀, t₁, t₂, t₃, rest, h, -⟩
      exact netParseIp_of_groups h out

/-- `1..2.3 ` is accepted as 1.0.2.3. -/
theorem not_parses : ¬∀ s out, Parses s out := by
  intro h
  have hparses := (h (['1', '.', '.', '2', '.', '3', ' '].map ch) .any).1.mp (by decide)
  obtain ⟨a, t₀, t₁, t₂, t₃, rest, hgroups, hcomplete⟩ := hparses
  have hloose : Groups (['1', '.', '.', '2', '.', '3', ' '].map ch) [ch '1'] [] [ch '2'] [ch '3']
      [ch ' '] ⟨1, 0, 2, 3⟩ := by
    refine ⟨rfl, ?_, ?_, ?_, ?_, ?_⟩
    · exact ⟨by simp; decide, rfl⟩
    · exact ⟨by simp, rfl⟩
    · exact ⟨by simp; decide, rfl⟩
    · exact ⟨by simp; decide, rfl⟩
    · intro c hc
      obtain rfl := Option.some.inj hc
      decide
  exact (hloose.complete_congr hgroups hcomplete).2.1 rfl

end Net

end CoolFrost

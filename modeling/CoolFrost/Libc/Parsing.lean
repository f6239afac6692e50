import CoolFrost.Libc.Numerals

/-!
# Text as numbers

`str_to_uint64` and `str_to_int64` (`libc/string.c`).  A string is its text without the terminator;
a pointer into it is the text from there on.  `Denotes` says what a text has to look like to stand
for an integer; the functions accept exactly the texts that stand for one in their range, and what
`itoa` writes in base 10 is read back.
-/

namespace CoolFrost

namespace Stdio

/-- `isspace`. -/
def isspace (c : UInt8) : Bool := c = 9 ∨ c = 11 ∨ c = 10 ∨ c = 0x0C ∨ c = 0x0D ∨ c = 32

/-- `isdigit`. -/
def isdigit (c : UInt8) : Bool := ch '0' ≤ c ∧ c ≤ ch '9'

/-- The loop that skips white space. -/
def skipSpace (s : List UInt8) : List UInt8 := s.dropWhile isspace

/-- The loop over the digits: the number read, unless it exceeds the limit, and what follows. -/
def readDigits (limit : UInt64) : List UInt8 → UInt64 → Option (UInt64 × List UInt8)
  | [], result => some (result, [])
  | c :: s, result =>
    if isdigit c then
      let digit := (c - ch '0').toUInt64
      if (limit - digit) / 10 < result then none else readDigits limit s (result * 10 + digit)
    else some (result, c :: s)

/-- What the two functions do after the sign: the number, unless there is an error. -/
def readNumber (limit : UInt64) (s : List UInt8) : Option UInt64 :=
  if (s.head?.map isdigit).getD false = false then none
  else
    match readDigits limit s 0 with
    | none => none
    | some (result, s) => if skipSpace s = [] then some result else none

/-- `str_to_uint64`: the value returned and the error code; `none` is the null pointer. -/
def strToUint64 (s : Option (List UInt8)) : UInt64 × UInt8 :=
  match s with
  | none => (0, 1)
  | some s =>
    match readNumber 0xFFFFFFFFFFFFFFFF (skipSpace s) with
    | none => (0, 1)
    | some result => (result, 0)

/-- The sign at the front of a text: whether it is a minus sign, and what follows. -/
def readSign : List UInt8 → Bool × List UInt8
  | [] => (false, [])
  | c :: s =>
    if c = ch '-' then (true, s) else if c = ch '+' then (false, s) else (false, c :: s)

/-- `str_to_int64`. -/
def strToInt64 (s : Option (List UInt8)) : Int64 × UInt8 :=
  match s with
  | none => (0, 1)
  | some s =>
    let (negative, s) := readSign (skipSpace s)
    match readNumber (if negative then 0x8000000000000000 else 0x7FFFFFFFFFFFFFFF) s with
    | none => (0, 1)
    | some result => (if negative then -result.toInt64 else result.toInt64, 0)

/-! ## What a text stands for -/

/-- The number that a digit stands for. -/
def digitVal (c : UInt8) : ℕ := c.toNat - (ch '0').toNat

/-- A text of decimal digits, possibly followed by white space, that stands for `n`. -/
def Decimal (s : List UInt8) (n : ℕ) : Prop :=
  ∃ ds w, s = ds ++ w ∧ ds ≠ [] ∧ (∀ c ∈ ds, isdigit c) ∧ (∀ c ∈ w, isspace c) ∧
    n = Numeral.value 10 (ds.map digitVal)

/-- A text that stands for the natural number `n`: white space, digits and white space. -/
def DenotesNat (s : List UInt8) (n : ℕ) : Prop :=
  ∃ w t, s = w ++ t ∧ (∀ c ∈ w, isspace c) ∧ Decimal t n

/-- A text that stands for the integer `z`: white space, possibly a sign, digits and white space. -/
def Denotes (s : List UInt8) (z : ℤ) : Prop :=
  ∃ w sign t n, s = w ++ (sign ++ t) ∧ (∀ c ∈ w, isspace c) ∧ Decimal t n ∧
    ((sign = [] ∨ sign = [ch '+']) ∧ z = n ∨ sign = [ch '-'] ∧ z = -n)

/-! ## Skipping and scanning -/

lemma isspace_not_isdigit {c : UInt8} (h : isspace c) : isdigit c = false := by
  have hall : ∀ i : Fin 256, isspace (UInt8.ofFin i) → isdigit (UInt8.ofFin i) = false :=
    by decide +kernel
  exact hall c.toFin h

lemma digitVal_lt {c : UInt8} (h : isdigit c) :
    digitVal c < 10 ∧ (c - ch '0').toUInt64.toNat = digitVal c := by
  have hall : ∀ i : Fin 256, isdigit (UInt8.ofFin i) → digitVal (UInt8.ofFin i) < 10 ∧
      (UInt8.ofFin i - ch '0').toUInt64.toNat = digitVal (UInt8.ofFin i) := by decide +kernel
  exact hall c.toFin h

/-- White space at the front is skipped. -/
lemma skipSpace_append {w s : List UInt8} (hw : ∀ c ∈ w, isspace c)
    (hs : ∀ c ∈ s.head?, isspace c = false) : skipSpace (w ++ s) = s := by
  rw [skipSpace, List.dropWhile_append_of_pos hw]
  cases s with
  | nil => rfl
  | cons c s => exact List.dropWhile_cons_of_neg (by simp [hs c rfl])

/-- The digits are read as long as the number does not exceed the limit. -/
lemma readDigits_append {limit : UInt64} (hlimit : 9 ≤ limit.toNat) {ds s : List UInt8}
    (hds : ∀ c ∈ ds, isdigit c) (hs : ∀ c ∈ s.head?, isdigit c = false) {r : UInt64}
    (hr : r.toNat ≤ limit.toNat) :
    readDigits limit (ds ++ s) r =
      if Numeral.valueFrom 10 r.toNat (ds.map digitVal) ≤ limit.toNat then
        some (UInt64.ofNat (Numeral.valueFrom 10 r.toNat (ds.map digitVal)), s)
      else none := by
  induction ds generalizing r with
  | nil =>
    rw [List.map_nil, Numeral.valueFrom_nil, if_pos hr, UInt64.ofNat_toNat, List.nil_append]
    cases s with
    | nil => rfl
    | cons c s =>
      rw [readDigits, if_neg]
      simp [hs c rfl]
  | cons c ds ih =>
    have hc := hds c List.mem_cons_self
    obtain ⟨hlt, hdigit⟩ := digitVal_lt hc
    have hmax := limit.toNat_lt
    have hguard : (limit - (c - ch '0').toUInt64) / 10 < r ↔
        limit.toNat < r.toNat * 10 + digitVal c := by
      have hle : (c - ch '0').toUInt64 ≤ limit := by
        rw [UInt64.le_iff_toNat_le, hdigit]
        omega
      have hten : (10 : UInt64).toNat = 10 := rfl
      rw [UInt64.lt_iff_toNat_lt, UInt64.toNat_div, UInt64.toNat_sub_of_le _ _ hle, hdigit, hten]
      omega
    rw [List.cons_append, readDigits, if_pos hc, List.map_cons, Numeral.valueFrom_cons]
    by_cases hover : limit.toNat < r.toNat * 10 + digitVal c
    · have hmore := Numeral.le_valueFrom (b := 10) (by decide) (r.toNat * 10 + digitVal c)
        (ds.map digitVal)
      rw [if_pos (hguard.mpr hover), if_neg (by omega)]
    · have hnext : (r * 10 + (c - ch '0').toUInt64).toNat = r.toNat * 10 + digitVal c := by
        have hten : (10 : UInt64).toNat = 10 := rfl
        rw [UInt64.toNat_add, UInt64.toNat_mul, hdigit, hten]
        omega
      rw [if_neg (hguard.not.mpr hover),
        ih (fun b hb => hds b (List.mem_cons_of_mem _ hb)) (by omega), hnext]

/-- What begins a text of digits is neither white space nor a sign. -/
lemma Decimal.head {s : List UInt8} {n : ℕ} (h : Decimal s n) :
    ∃ c t, s = c :: t ∧ isdigit c ∧ isspace c = false ∧ c ≠ ch '-' ∧ c ≠ ch '+' := by
  obtain ⟨ds, w, rfl, hne, hds, -, -⟩ := h
  cases ds with
  | nil => exact absurd rfl hne
  | cons c ds =>
    have hc := hds c List.mem_cons_self
    refine ⟨c, ds ++ w, rfl, hc, ?_, ?_, ?_⟩
    · by_contra hspace
      exact absurd hc (by simp [isspace_not_isdigit (by simpa using hspace)])
    · rintro rfl
      exact absurd hc (by decide)
    · rintro rfl
      exact absurd hc (by decide)

/-- The digits of a text are what stands in front of the first character that is none. -/
lemma decimal_iff (s : List UInt8) (n : ℕ) : Decimal s n ↔
    s.takeWhile isdigit ≠ [] ∧ (∀ c ∈ s.dropWhile isdigit, isspace c) ∧
      n = Numeral.value 10 ((s.takeWhile isdigit).map digitVal) := by
  constructor
  · rintro ⟨ds, w, rfl, hne, hds, hw, hn⟩
    have hdrop : w.dropWhile isdigit = w ∧ w.takeWhile isdigit = [] := by
      cases w with
      | nil => exact ⟨rfl, rfl⟩
      | cons c w =>
        have hc := isspace_not_isdigit (hw c List.mem_cons_self)
        exact ⟨List.dropWhile_cons_of_neg (by simp [hc]), List.takeWhile_cons_of_neg (by simp [hc])⟩
    rw [List.takeWhile_append_of_pos hds, List.dropWhile_append_of_pos hds, hdrop.1, hdrop.2,
      List.append_nil]
    exact ⟨hne, hw, hn⟩
  · rintro ⟨hne, hw, hn⟩
    exact ⟨_, _, (List.takeWhile_append_dropWhile).symm, hne,
      fun c hc => List.mem_takeWhile_imp hc, hw, hn⟩

/-- A number is read exactly from the texts that stand for one up to the limit. -/
lemma readNumber_eq_some {limit : UInt64} (hlimit : 9 ≤ limit.toNat) (s : List UInt8) (r : UInt64) :
    readNumber limit s = some r ↔ Decimal s r.toNat ∧ r.toNat ≤ limit.toNat := by
  have hmax := limit.toNat_lt
  have hhead : (s.head?.map isdigit).getD false = false ↔ s.takeWhile isdigit = [] := by
    cases s with
    | nil => exact iff_of_true rfl rfl
    | cons c s => cases hc : isdigit c <;> simp [hc]
  have hstop : ∀ c ∈ (s.dropWhile isdigit).head?, isdigit c = false := by
    intro c hc
    have hne : s.dropWhile isdigit ≠ [] := by
      rintro hnil
      rw [hnil] at hc
      cases hc
    have hfirst := List.head_dropWhile_not isdigit hne
    rwa [← Option.some.inj ((List.head?_eq_some_head hne).symm.trans hc)]
  have hdigits : ∀ c ∈ s.takeWhile isdigit, isdigit c := fun c hc => List.mem_takeWhile_imp hc
  have hread := readDigits_append hlimit hdigits hstop (r := 0) (Nat.zero_le _)
  rw [List.takeWhile_append_dropWhile] at hread
  change readDigits limit s 0 = if Numeral.value 10 _ ≤ _ then
    some (UInt64.ofNat (Numeral.value 10 _), _)
    else none at hread
  rw [readNumber, decimal_iff]
  by_cases hnil : s.takeWhile isdigit = []
  · rw [if_pos (hhead.mpr hnil)]
    exact iff_of_false (by simp) fun h => h.1.1 hnil
  · rw [if_neg (hhead.not.mpr hnil), hread]
    by_cases hle : Numeral.value 10 ((s.takeWhile isdigit).map digitVal) ≤ limit.toNat
    · rw [if_pos hle]
      have hspace : skipSpace (s.dropWhile isdigit) = [] ↔ ∀ c ∈ s.dropWhile isdigit, isspace c :=
        List.dropWhile_eq_nil_iff
      have hr : ∀ m, m < 2 ^ 64 → (UInt64.ofNat m = r ↔ r.toNat = m) := by
        intro m hm
        rw [← UInt64.toNat_inj, UInt64.toNat_ofNat', Nat.mod_eq_of_lt hm]
        exact eq_comm
      dsimp only
      by_cases hw : skipSpace (s.dropWhile isdigit) = []
      · rw [if_pos hw, Option.some_inj, hr _ (by omega)]
        constructor
        · intro heq
          exact ⟨⟨hnil, hspace.mp hw, heq⟩, by omega⟩
        · exact fun h => h.1.2.2
      · rw [if_neg hw]
        exact iff_of_false (by simp) fun h => hw (hspace.mpr h.1.2.1)
    · rw [if_neg hle]
      exact iff_of_false (by simp) fun h => hle (h.1.2.2 ▸ h.2)

/-- A number that is not read is not there, or exceeds the limit. -/
lemma readNumber_eq_none {limit : UInt64} (hlimit : 9 ≤ limit.toNat) {s : List UInt8}
    (h : readNumber limit s = none) {n : ℕ} (hn : Decimal s n) : limit.toNat < n := by
  by_contra hle
  have hmax := limit.toNat_lt
  have hnat : (UInt64.ofNat n).toNat = n := by
    rw [UInt64.toNat_ofNat', Nat.mod_eq_of_lt (by omega)]
  have hsome := (readNumber_eq_some hlimit s (UInt64.ofNat n)).mpr
    ⟨hnat.symm ▸ hn, by rw [hnat]; omega⟩
  rw [h] at hsome
  cases hsome

/-! ## What the functions read -/

lemma skipSpace_split (s : List UInt8) : ∃ w, s = w ++ skipSpace s ∧ ∀ c ∈ w, isspace c :=
  ⟨s.takeWhile isspace, (List.takeWhile_append_dropWhile).symm, fun _ hc =>
    List.mem_takeWhile_imp hc⟩

lemma denotesNat_iff (s : List UInt8) (n : ℕ) : DenotesNat s n ↔ Decimal (skipSpace s) n := by
  constructor
  · rintro ⟨w, t, rfl, hw, ht⟩
    obtain ⟨c, t', rfl, -, hc, -⟩ := ht.head
    have hskip : skipSpace (w ++ c :: t') = c :: t' :=
      skipSpace_append hw fun b hb => (Option.some.inj hb) ▸ hc
    rwa [hskip]
  · intro h
    obtain ⟨w, hs, hw⟩ := skipSpace_split s
    exact ⟨w, skipSpace s, hs, hw, h⟩

/-- The integer that a text with a sign stands for. -/
def signed (negative : Bool) (n : ℕ) : ℤ := if negative then -n else n

lemma denotes_iff (s : List UInt8) (z : ℤ) : Denotes s z ↔
    ∃ n, Decimal (readSign (skipSpace s)).2 n ∧ z = signed (readSign (skipSpace s)).1 n := by
  constructor
  · rintro ⟨w, sign, t, n, rfl, hw, ht, hsign⟩
    obtain ⟨c, t', rfl, -, hc, hminus, hplus⟩ := ht.head
    rcases hsign with ⟨rfl | rfl, hz⟩ | ⟨rfl, hz⟩
    · have hskip : skipSpace (w ++ ([] ++ c :: t')) = c :: t' :=
        skipSpace_append hw fun b hb => (Option.some.inj hb) ▸ hc
      rw [hskip, readSign, if_neg hminus, if_neg hplus]
      exact ⟨n, ht, hz⟩
    · have hskip : skipSpace (w ++ ([ch '+'] ++ c :: t')) = ch '+' :: c :: t' :=
        skipSpace_append hw fun b hb => (Option.some.inj hb) ▸ rfl
      rw [hskip, readSign, if_neg (by decide), if_pos rfl]
      exact ⟨n, ht, hz⟩
    · have hskip : skipSpace (w ++ ([ch '-'] ++ c :: t')) = ch '-' :: c :: t' :=
        skipSpace_append hw fun b hb => (Option.some.inj hb) ▸ rfl
      rw [hskip, readSign, if_pos rfl]
      exact ⟨n, ht, hz⟩
  · rintro ⟨n, hn, hz⟩
    obtain ⟨w, hs, hw⟩ := skipSpace_split s
    generalize skipSpace s = t at hs hn hz
    subst hs
    cases t with
    | nil => exact ⟨w, [], [], n, rfl, hw, hn, .inl ⟨.inl rfl, hz⟩⟩
    | cons c t =>
      rw [readSign] at hn hz
      split_ifs at hn hz with hminus hplus
      · exact ⟨w, [c], t, n, rfl, hw, hn, .inr ⟨by rw [hminus], hz⟩⟩
      · exact ⟨w, [c], t, n, rfl, hw, hn, .inl ⟨.inr (by rw [hplus]), hz⟩⟩
      · exact ⟨w, [], c :: t, n, rfl, hw, hn, .inl ⟨.inl rfl, hz⟩⟩

/-- `str_to_uint64` accepts the texts that stand for a number below 2⁶⁴, and returns it. -/
lemma strToUint64_spec (s : List UInt8) :
    ((strToUint64 (some s)).2 = 0 ↔ ∃ n, DenotesNat s n ∧ n < 2 ^ 64) ∧
      ∀ n, DenotesNat s n → n < 2 ^ 64 → strToUint64 (some s) = (UInt64.ofNat n, 0) := by
  have hmax : (0xFFFFFFFFFFFFFFFF : UInt64).toNat = 2 ^ 64 - 1 := rfl
  have hlimit : 9 ≤ (0xFFFFFFFFFFFFFFFF : UInt64).toNat := by decide
  rw [strToUint64]
  cases hread : readNumber 0xFFFFFFFFFFFFFFFF (skipSpace s) with
  | none =>
    have hover : ∀ n, DenotesNat s n → ¬n < 2 ^ 64 := by
      intro n hn
      have h := readNumber_eq_none hlimit hread ((denotesNat_iff s n).mp hn)
      omega
    exact ⟨iff_of_false (by decide) fun ⟨n, hn, hlt⟩ => hover n hn hlt,
      fun n hn hlt => absurd hlt (hover n hn)⟩
  | some r =>
    obtain ⟨hr, -⟩ := (readNumber_eq_some hlimit _ r).mp hread
    refine ⟨iff_of_true rfl ⟨r.toNat, (denotesNat_iff s _).mpr hr, r.toNat_lt⟩, fun n hn hlt => ?_⟩
    -- A text stands for one number only.
    have heq : n = r.toNat := by
      rw [denotesNat_iff, decimal_iff] at hn
      rw [decimal_iff] at hr
      exact hn.2.2.trans hr.2.2.symm
    rw [heq, UInt64.ofNat_toNat]

/-- The largest magnitude that `str_to_int64` accepts after a sign. -/
def signedLimit (negative : Bool) : UInt64 :=
  if negative then 0x8000000000000000 else 0x7FFFFFFFFFFFFFFF

/-- Up to that magnitude the integers have 64 bits, and no further. -/
lemma signed_range_iff (negative : Bool) (n : ℕ) :
    -2 ^ 63 ≤ signed negative n ∧ signed negative n < 2 ^ 63 ↔
    n ≤ (signedLimit negative).toNat := by
  have htrue : (0x8000000000000000 : UInt64).toNat = 2 ^ 63 := rfl
  have hfalse : (0x7FFFFFFFFFFFFFFF : UInt64).toNat = 2 ^ 63 - 1 := rfl
  cases negative with
  | true =>
    rw [signedLimit, if_pos rfl, htrue, signed, if_pos rfl]
    omega
  | false =>
    rw [signedLimit, if_neg Bool.false_ne_true, hfalse, signed, if_neg Bool.false_ne_true]
    omega

lemma toInt64_ofNat (r : UInt64) : r.toInt64 = Int64.ofInt r.toNat := by
  have h := UInt64.toInt64_ofNat' (n := r.toNat)
  rwa [UInt64.ofNat_toNat, ← Int64.ofInt_eq_ofNat] at h

/-- `str_to_int64` accepts the texts that stand for an integer of 64 bits, and returns it. -/
lemma strToInt64_spec (s : List UInt8) :
    ((strToInt64 (some s)).2 = 0 ↔ ∃ z, Denotes s z ∧ -2 ^ 63 ≤ z ∧ z < 2 ^ 63) ∧
      ∀ z, Denotes s z → -2 ^ 63 ≤ z → z < 2 ^ 63 → strToInt64 (some s) = (Int64.ofInt z, 0) := by
  have hlimit : 9 ≤ (signedLimit (readSign (skipSpace s)).1).toNat := by
    unfold signedLimit
    split_ifs <;> decide
  have hden := denotes_iff s
  have hrange := signed_range_iff (readSign (skipSpace s)).1
  rw [strToInt64]
  generalize readSign (skipSpace s) = p at hden hlimit hrange ⊢
  obtain ⟨negative, t⟩ := p
  dsimp only at hden hlimit hrange ⊢
  rw [← signedLimit]
  cases hread : readNumber (signedLimit negative) t with
  | none =>
    have hover : ∀ z, Denotes s z → ¬(-2 ^ 63 ≤ z ∧ z < 2 ^ 63) := by
      intro z hz
      obtain ⟨n, hn, rfl⟩ := (hden z).mp hz
      have h := readNumber_eq_none hlimit hread hn
      rw [hrange]
      omega
    exact ⟨iff_of_false (show ¬(1 : UInt8) = 0 by decide) fun ⟨z, hz, hlow, hhigh⟩ =>
      hover z hz ⟨hlow, hhigh⟩,
      fun z hz hlow hhigh => absurd ⟨hlow, hhigh⟩ (hover z hz)⟩
  | some r =>
    obtain ⟨hr, hle⟩ := (readNumber_eq_some hlimit _ r).mp hread
    have hin := (hrange r.toNat).mpr hle
    refine ⟨iff_of_true rfl ⟨_, (hden _).mpr ⟨_, hr, rfl⟩, hin.1, hin.2⟩, fun z hz hlow hhigh => ?_⟩
    obtain ⟨n, hn, rfl⟩ := (hden z).mp hz
    have heq : n = r.toNat := by
      rw [decimal_iff] at hn hr
      exact hn.2.2.trans hr.2.2.symm
    rw [heq]
    cases negative with
    | true =>
      change (-r.toInt64, (0 : UInt8)) = (Int64.ofInt (-r.toNat), 0)
      rw [toInt64_ofNat, Int64.ofInt_neg]
    | false =>
      change (r.toInt64, (0 : UInt8)) = (Int64.ofInt r.toNat, 0)
      rw [toInt64_ofNat]

/-! ## The round trip -/

lemma digitChar_decimal : ∀ d < 10, isdigit (digitChar d) = true ∧ digitVal (digitChar d) = d :=
  by decide

/-- The decimal numeral of a number stands for it. -/
lemma decimal_numeral (n : ℕ) : Decimal (numeral 10 n) n := by
  have hlt := Numeral.digits_lt (b := 10) (by decide) n
  refine ⟨numeral 10 n, [], (List.append_nil _).symm, ?_, ?_, by simp, ?_⟩
  · exact fun h => Numeral.digits_ne_nil (by decide) n (List.map_eq_nil_iff.mp h)
  · intro c hc
    obtain ⟨d, hd, rfl⟩ := List.mem_map.mp hc
    exact (digitChar_decimal d (hlt d hd)).1
  · have hmap : (numeral 10 n).map digitVal = Numeral.digits 10 n := by
      rw [numeral, List.map_map]
      refine (List.map_congr_left fun d hd => ?_).trans (List.map_id _)
      exact (digitChar_decimal d (hlt d hd)).2
    rw [hmap, Numeral.value_digits (by decide)]

/-- What `itoa` writes in base 10 stands for the number. -/
lemma denotes_itoa (v : Int64) : Denotes (itoa v 10) v.toInt := by
  have hneg : v < 0 ↔ v.toInt < 0 := Int64.lt_iff_toInt_lt
  have hitoa := itoa_eq (b := 10) (by decide) (by decide) v
  have hnum := decimal_numeral v.toInt.natAbs
  refine ⟨[], _, _, _, hitoa, by simp, hnum, ?_⟩
  by_cases h : v < 0
  · rw [if_pos ⟨h, rfl⟩]
    have := hneg.mp h
    exact .inr ⟨rfl, by omega⟩
  · rw [if_neg (fun hand => h hand.1)]
    have := hneg.not.mp h
    exact .inl ⟨.inl rfl, by omega⟩

/-- Integers are read back from what `itoa` writes, and each of the two functions accepts exactly
the texts that stand for a number of its range and returns that number. -/
theorem integer_text :
    (∀ v : Int64, strToInt64 (some (itoa v 10)) = (v, 0)) ∧
    (∀ s, ((strToInt64 (some s)).2 = 0 ↔ ∃ z, Denotes s z ∧ -2 ^ 63 ≤ z ∧ z < 2 ^ 63) ∧
      ∀ z, Denotes s z → -2 ^ 63 ≤ z → z < 2 ^ 63 → strToInt64 (some s) = (Int64.ofInt z, 0)) ∧
    (∀ s, ((strToUint64 (some s)).2 = 0 ↔ ∃ n, DenotesNat s n ∧ n < 2 ^ 64) ∧
      ∀ n, DenotesNat s n → n < 2 ^ 64 → strToUint64 (some s) = (UInt64.ofNat n, 0)) := by
  refine ⟨fun v => ?_, strToInt64_spec, strToUint64_spec⟩
  have h := (strToInt64_spec _).2 _ (denotes_itoa v) (Int64.le_toInt v) (Int64.toInt_lt v)
  rwa [Int64.ofInt_toInt] at h

/-- The most negative number, in white space. -/
theorem integer_text_min :
    strToInt64 (some ([32] ++ ([ch '-'] ++ (numeral 10 (2 ^ 63) ++ [])))) =
    (Int64.ofInt (-(2 ^ 63 : ℕ)), 0) :=
  (integer_text.2.1 _).2 (-(2 ^ 63 : ℕ))
    ⟨[32], [ch '-'], numeral 10 (2 ^ 63) ++ [], 2 ^ 63, rfl,
      List.forall_mem_singleton.mpr rfl,
      (List.append_nil (numeral 10 (2 ^ 63))).symm ▸ decimal_numeral _, .inr ⟨rfl, rfl⟩⟩
    (by decide) (by decide)

end Stdio

end CoolFrost

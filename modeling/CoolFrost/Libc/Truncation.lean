import CoolFrost.Libc.Printf
import CoolFrost.Libc.Formatters

/-!
# What vsnprintf stores

`vsnprintf` makes one text of its format and its arguments, whatever the buffer.  It stores as much
of the text as fits in front of the terminator, and returns the length of all of it.
-/

namespace CoolFrost

namespace Formatter

open Stdio

/-- The memory `s'` is the memory `s` after the text `out` went to a buffer of `n` bytes. -/
structure Truncated (n : ℕ) (out : List UInt8) (s s' : ℕ → UInt8) : Prop where
  text : ∀ i < min (n - 1) out.length, out[i]? = some (s' i)
  terminator : 0 < n → s' (min (n - 1) out.length) = 0
  outside : ∀ i, n ≤ i → s' i = s i

/-! ## The bounded buffer -/

section Buffer

variable (n : UInt64)

@[simp] lemma Sink.puts_nil (s : Sink) : s.puts n [] = s := rfl

@[simp] lemma Sink.puts_cons (c : UInt8) (out : List UInt8) (s : Sink) :
    s.puts n (c :: out) = (s.put n c).puts n out := rfl

lemma Sink.puts_append (out out' : List UInt8) (s : Sink) :
    s.puts n (out ++ out') = (s.puts n out).puts n out' := List.foldl_append

/-- A loop that emits the same character over and over. -/
lemma Sink.iterate_put (c : UInt8) (k : ℕ) (s : Sink) :
    (Sink.put n c)^[k] s = s.puts n (List.replicate k c) := by
  induction k generalizing s with
  | zero => rfl
  | succ k ih => rw [Function.iterate_succ_apply, ih, List.replicate_succ, Sink.puts_cons]

/-- The two comparisons of `_EC` ask whether there is room in front of the terminator. -/
lemma room_iff (total : UInt64) : 1 < n ∧ total < n - 1 ↔ total.toNat < n.toNat - 1 := by
  rw [UInt64.lt_iff_toNat_lt, UInt64.lt_iff_toNat_lt]
  constructor
  · rintro ⟨h₁, h₂⟩
    rwa [UInt64.toNat_sub_of_le _ _ (UInt64.le_iff_toNat_le.mpr h₁.le)] at h₂
  · intro h
    have h₁ : (1 : UInt64).toNat < n.toNat := by
      have : (1 : UInt64).toNat = 1 := rfl
      omega
    refine ⟨h₁, ?_⟩
    rwa [UInt64.toNat_sub_of_le _ _ (UInt64.le_iff_toNat_le.mpr h₁.le)]

variable {n}

/-- Every character counts. -/
lemma Sink.total_puts {out : List UInt8} {s : Sink} (h : s.total.toNat + out.length < 2 ^ 64) :
    (s.puts n out).total.toNat = s.total.toNat + out.length := by
  induction out generalizing s with
  | nil => rfl
  | cons c out ih =>
    rw [List.length_cons] at h
    have htotal : (s.put n c).total.toNat = s.total.toNat + 1 := by
      change (s.total + 1).toNat = _
      rw [UInt64.toNat_add]
      exact Nat.mod_eq_of_lt (by simp; omega)
    rw [Sink.puts_cons, ih (by omega), htotal, List.length_cons]
    omega

/-- A character is stored in its place if there is room in front of the terminator. -/
lemma Sink.mem_puts {out : List UInt8} {s : Sink}
    (h : s.total.toNat + out.length < 2 ^ 64) (i : ℕ) :
    (s.puts n out).mem i =
      if s.total.toNat ≤ i ∧ i < n.toNat - 1 then (out[i - s.total.toNat]?).getD (s.mem i)
      else s.mem i := by
  induction out generalizing s with
  | nil => simp
  | cons c out ih =>
    rw [List.length_cons] at h
    have htotal : (s.put n c).total.toNat = s.total.toNat + 1 :=
      @Sink.total_puts n [c] s (by simp; omega)
    have hmem : (s.put n c).mem i =
        if i = s.total.toNat ∧ i < n.toNat - 1 then c else s.mem i := by
      unfold Sink.put
      simp only [room_iff]
      by_cases hi : i = s.total.toNat
      · subst hi
        split_ifs <;> simp_all
      · split_ifs <;> simp_all
    rw [Sink.puts_cons, ih (by omega), htotal, hmem]
    rcases lt_trichotomy i s.total.toNat with hi | rfl | hi
    · rw [if_neg (by omega), if_neg (by omega), if_neg (by omega)]
    · rw [if_neg (by omega)]
      simp
    · have hindex : i - s.total.toNat = (i - (s.total.toNat + 1)) + 1 := by omega
      have hne : ¬(i = s.total.toNat ∧ i < n.toNat - 1) := by omega
      rw [if_neg hne, hindex, List.getElem?_cons_succ]
      exact if_congr (by omega) rfl rfl

/-- What `vsnprintf` leaves after it has emitted the text `out`. -/
lemma truncated (out : List UInt8) (s : ℕ → UInt8) (h : out.length < 2 ^ 64) :
    let r := Sink.puts n out ⟨s, 0⟩
    Truncated n.toNat out s
      (if 0 < n then Function.update r.mem (if r.total < n then r.total else n - 1).toNat 0
        else r.mem) := by
  intro r
  have htotal : r.total.toNat = out.length := by
    simpa using @Sink.total_puts n out ⟨s, 0⟩ (by simpa using h)
  have hmem : ∀ i, r.mem i = if i < n.toNat - 1 then (out[i]?).getD (s i) else s i := fun i => by
    simpa using @Sink.mem_puts n out ⟨s, 0⟩ (by simpa using h) i
  by_cases hn : 0 < n
  · have hpos : 0 < n.toNat := UInt64.lt_iff_toNat_lt.mp hn
    have hend : (if r.total < n then r.total else n - 1).toNat = min (n.toNat - 1) out.length := by
      split_ifs with hlt
      · rw [UInt64.lt_iff_toNat_lt, htotal] at hlt
        rw [htotal, min_eq_right (by omega)]
      · rw [UInt64.lt_iff_toNat_lt, htotal] at hlt
        have hone : (1 : UInt64) ≤ n := UInt64.le_iff_toNat_le.mpr hpos
        rw [UInt64.toNat_sub_of_le _ _ hone]
        exact (min_eq_left (by omega)).symm
    rw [if_pos hn, hend]
    refine ⟨fun i hi => ?_, fun _ => Function.update_self _ _ _, fun i hi => ?_⟩
    · rw [Function.update_of_ne hi.ne, hmem, if_pos (by omega)]
      have hlen : i < out.length := by omega
      rw [List.getElem?_eq_getElem hlen]
      rfl
    · rw [Function.update_of_ne (by omega), hmem, if_neg (by omega)]
  · have hzero : n.toNat = 0 := by
      rw [UInt64.lt_iff_toNat_lt] at hn
      exact Nat.eq_zero_of_not_pos hn
    rw [if_neg hn, hzero]
    refine ⟨fun i hi => by simp at hi, fun h => absurd h (lt_irrefl 0), fun i _ => ?_⟩
    rw [hmem, hzero, if_neg (by omega)]

end Buffer

/-! ## One text for every buffer -/

lemma toInt_ofNat32 {k : ℕ} (h : k < 2 ^ 31) : (Int32.ofNat k).toInt = k := by
  rw [← Int32.ofInt_eq_ofNat, Int32.toInt_ofInt_of_le (by omega) (by omega)]

/-- As long as the lengths fit into an `int`, `_EMIT_PADDED` emits the padded text. -/
lemma Sink.emitPadded_eq {v : List UInt8} {o : Options} (hwidth : o.width < 2 ^ 31)
    (hv : v.length < 2 ^ 31) (n : UInt64) (s : Sink) :
    s.emitPadded n v o = s.puts n (padded v o.width o.zero o.left) := by
  have hlt : Int32.ofNat v.length < Int32.ofNat o.width ↔ v.length < o.width := by
    rw [Int32.lt_iff_toInt_lt, toInt_ofNat32 hwidth, toInt_ofNat32 hv, Nat.cast_lt]
  have hsub : v.length < o.width →
      (Int32.ofNat o.width - Int32.ofNat v.length).toInt.toNat = o.width - v.length := by
    intro h
    rw [← Int32.ofNat_sub _ _ h.le, toInt_ofNat32 (by omega), Int.toNat_natCast]
  unfold Sink.emitPadded padded
  simp only [Sink.iterate_put, hlt]
  by_cases hpad : v.length < o.width
  · simp only [hpad, hsub hpad]
    cases o.left with
    | false => simp [Sink.puts_append]
    | true => simp [Sink.puts_append]
  · have hzero : o.width - v.length = 0 := by omega
    simp [hpad, hzero]

lemma length_le_padded (v : List UInt8) (width : ℕ) (zero left : Bool) :
    v.length ≤ (padded v width zero left).length := by
  unfold padded
  split_ifs <;> simp

/-- A round at a directive, with all that the parsers find in front of the specifier. -/
lemma vsFrom_options (m : ℕ) (rest : List UInt8) (args : List Arg) :
    vsFrom (m + 1) (ch '%' :: rest) args =
      if 2 ^ 31 ≤ (parseOptions rest).1.width then none
      else
        match (parseOptions rest).2 with
        | [] => none
        | d :: rest' =>
          (vsSpec d (parseOptions rest).1.isLong args).bind fun p =>
            emit (padded (cstr p.1) (parseOptions rest).1.width (parseOptions rest).1.zero
              (parseOptions rest).1.left) (vsFrom m rest' p.2) := by
  rw [vsFrom, if_neg (not_not.mpr rfl)]
  rfl

/-- A run of `vsnprintf` emits the text that the format and the arguments make. -/
lemma vsLoop_eq {m : ℕ} {fmt : List UInt8} {args left : List Arg} {out : List UInt8}
    (h : vsFrom m fmt args = some (out, left)) (hlen : out.length < 2 ^ 31)
    (n : UInt64) (s : Sink) :
    vsLoop n fmt args s = .ok (s.puts n out) := by
  induction m generalizing fmt args out s with
  | zero =>
    cases fmt with
    | nil =>
      obtain ⟨rfl, rfl⟩ : out = [] ∧ left = args := by simpa [vsFrom, eq_comm] using h
      rw [vsLoop, Sink.puts_nil]
    | cons c rest => simp [vsFrom] at h
  | succ m ih =>
    cases fmt with
    | nil =>
      obtain ⟨rfl, rfl⟩ : out = [] ∧ left = args := by simpa [vsFrom, eq_comm] using h
      rw [vsLoop, Sink.puts_nil]
    | cons c rest =>
      by_cases hc : c = ch '%'
      · subst hc
        rw [vsFrom_options] at h
        split_ifs at h with hwidth
        rcases hparse : parseOptions rest with ⟨o, _ | ⟨d, rest'⟩⟩
        · simp [hparse] at h
        · simp only [hparse] at h hwidth
          obtain ⟨⟨v, left'⟩, hspec, hemit⟩ := Option.bind_eq_some_iff.mp h
          obtain ⟨⟨out', left⟩, hrest, hout⟩ := emit_eq_some hemit
          obtain ⟨rfl, rfl⟩ := Prod.mk.inj hout
          rw [List.length_append] at hlen
          dsimp only at hlen hrest
          have hv := length_le_padded (cstr v) o.width o.zero o.left
          rw [vsLoop_directive hparse hspec, ih hrest (by omega), Sink.puts_append,
            Sink.emitPadded_eq (by omega) (by omega)]
      · rw [vsFrom, if_pos hc] at h
        obtain ⟨⟨out', left⟩, hrest, hout⟩ := emit_eq_some h
        obtain ⟨rfl, rfl⟩ := Prod.mk.inj hout
        rw [List.length_append] at hlen
        dsimp only at hlen hrest
        rw [vsLoop, if_pos hc, ih hrest (by omega), Sink.puts_append]
        rfl

/-- A complete format with widths that fit and enough arguments makes a text. -/
lemma vsFrom_eq_some {fmt : List UInt8} {args : List Arg} (hc : Complete (vsTokens fmt))
    (hw : Narrow (vsTokens fmt)) (ha : Enough (vsWants fmt) args) {m : ℕ} (hm : fmt.length ≤ m) :
    ∃ out left, vsFrom m fmt args = some (out, left) := by
  induction m generalizing fmt args with
  | zero =>
    obtain rfl := List.eq_nil_of_length_eq_zero (Nat.le_zero.mp hm)
    exact ⟨[], args, by rw [vsFrom]⟩
  | succ m ih =>
    cases fmt with
    | nil => exact ⟨[], args, by rw [vsFrom]⟩
    | cons c rest =>
      rw [List.length_cons] at hm
      unfold vsWants at ha ih
      by_cases hper : c = ch '%'
      · subst hper
        rcases hparse : parseOptions rest with ⟨o, _ | ⟨d, rest'⟩⟩
        · rw [vsTokens_cut hparse] at hc
          exact absurd hc (not_complete_cut o)
        · rw [vsTokens_directive hparse] at hc hw ha
          have hwidth : o.width < 2 ^ 31 := hw _ List.mem_cons_self
          have hlen : rest'.length < rest.length := by
            have hle := parseOptions_length rest
            rw [hparse] at hle
            exact hle
          obtain ⟨v, left', hspec, hleft⟩ := vsSpec_finds ha
          obtain ⟨out, left, hrest⟩ := ih (complete_cons.mp hc)
            (fun t ht => hw t (List.mem_cons_of_mem _ ht)) hleft (by omega)
          refine ⟨padded (cstr v) o.width o.zero o.left ++ out, left, ?_⟩
          rw [vsFrom_options]
          simp only [hparse, hspec, Option.bind_some, hrest]
          exact if_neg (by omega)
      · rw [vsTokens, if_pos hper] at hc hw ha
        obtain ⟨out, left, hrest⟩ := ih hc hw ha (by omega)
        refine ⟨c :: out, left, ?_⟩
        rw [vsFrom, if_pos hper, hrest]
        rfl

/-- `vsnprintf` stores as much of the text as fits in front of the terminator, writes nothing behind
the buffer, and returns the length of the whole text. -/
theorem vsnprintf_truncates (fmt : List UInt8) (args : List Arg) (hc : Complete (vsTokens fmt))
    (hw : Narrow (vsTokens fmt)) (ha : Enough (vsWants fmt) args) :
    ∃ out left, vsFrom fmt.length fmt args = some (out, left) ∧
      (out.length < 2 ^ 31 → ∀ (s : ℕ → UInt8) (n : UInt64), ∃ s' r,
        vsnprintf s n fmt args = .ok (s', r) ∧ Truncated n.toNat out s s' ∧
          r.toInt = out.length) := by
  obtain ⟨out, left, hout⟩ := vsFrom_eq_some hc hw ha le_rfl
  refine ⟨out, left, hout, fun hlen s n => ?_⟩
  have hrun := vsLoop_eq hout hlen n ⟨s, 0⟩
  have htotal : (Sink.puts n out ⟨s, 0⟩).total.toNat = out.length := by
    simpa using @Sink.total_puts n out ⟨s, 0⟩ (by simp; omega)
  refine ⟨_, _, by rw [vsnprintf, hrun]; rfl, truncated out s (by omega), ?_⟩
  have hcount : (Sink.puts n out ⟨s, 0⟩).total = UInt64.ofNat out.length := by
    rw [← htotal, UInt64.ofNat_toNat]
  rw [hcount, UInt64.toUInt32_ofNat', UInt32.toInt32_ofNat', toInt_ofNat32 hlen]

/-- A number that does not fit into the buffer. -/
theorem vsnprintf_truncates_decimal :
    ∃ out left, vsFrom 2 [ch '%', ch 'd'] [.word32 777] = some (out, left) ∧
      (out.length < 2 ^ 31 → ∀ (s : ℕ → UInt8) (n : UInt64), ∃ s' r,
        vsnprintf s n [ch '%', ch 'd'] [.word32 777] = .ok (s', r) ∧ Truncated n.toNat out s s' ∧
          r.toInt = out.length) := by
  have hparse : parseOptions [ch 'd'] = (⟨false, false, 0, false⟩, [ch 'd']) := rfl
  have htokens : vsTokens [ch '%', ch 'd'] = [⟨⟨false, false, 0, false⟩, some (ch 'd')⟩] := by
    rw [vsTokens_directive hparse, vsTokens]
  refine vsnprintf_truncates [ch '%', ch 'd'] [.word32 777] ?_ ?_ ?_
  · rw [htokens]
    exact complete_cons.mpr fun _ hmem => absurd hmem List.not_mem_nil
  · rw [htokens]
    intro t ht
    rw [List.mem_singleton.mp ht]
    decide
  · rw [vsWants, htokens]
    exact ⟨trivial, trivial⟩

end Formatter

end CoolFrost

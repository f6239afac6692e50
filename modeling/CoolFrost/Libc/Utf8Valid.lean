import CoolFrost.Libc.Utf8

/-!
# Validation of UTF-8

`utf8_valid` (`libc/utf8.c`) decodes a string until it gets an error, which it cannot tell from the
character U+FFFD, or has come to the end of a window, of which `utf8_decode` knows nothing: a
sequence that the window cuts off is completed with the bytes behind it.
-/

namespace CoolFrost

open Utf8

namespace Rune

/-- `(size_t)-1`. -/
def sizeMax : ℕ := 2 ^ 64 - 1

/-- The loop of `utf8_valid`; the end of the window is `left` bytes ahead, or has been passed. -/
def validLoop (bounded : Bool) (s : List UInt8) (left : ℕ) : ℕ :=
  if s.headD 0 ≠ 0 ∧ (bounded = false ∨ 0 < left) then
    if (utf8Decode s).1 = runeError then 0
    else validLoop bounded (utf8Decode s).2 (left - (s.length - (utf8Decode s).2.length))
  else 1
termination_by s.length
decreasing_by exact length_utf8Decode_lt (‹s.headD 0 ≠ 0 ∧ _›).1

/-- `utf8_valid`. -/
def utf8Valid (s : List UInt8) (len : ℕ) : ℕ := validLoop (len ≠ sizeMax) s len

/-- The character that `RUNE_ERROR` stands for. -/
def replacement : Char := ⟨0xFFFD, by decide⟩

/-- Characters without U+FFFD fill the window up to a sequence that begins in it and is completed by
the bytes behind it. -/
def Straddles (w rest : List UInt8) : Prop :=
  ∃ (cs : List Char) (c : Char) (t u : List UInt8), w = cs.flatMap String.utf8EncodeChar ++ t ∧
    String.utf8EncodeChar c = t ++ u ∧ t ≠ [] ∧ u ≠ [] ∧ u <+: rest ∧ replacement ∉ cs ∧
    c ≠ replacement

/-- What `utf8_valid` accepts. -/
def Passes (w rest : List UInt8) : Prop :=
  (∃ cs : List Char, w = cs.flatMap String.utf8EncodeChar ∧ replacement ∉ cs) ∨ Straddles w rest

/-! ## Unique decoding -/

variable {c d : Char} {cs ds : List Char} {s t u w rest : List UInt8}

lemma encode_append_inj (hc : c.val ≠ 0) (hd : d.val ≠ 0)
    (h : String.utf8EncodeChar c ++ s = String.utf8EncodeChar d ++ t) : c = d ∧ s = t := by
  have hdecode := utf8Decode_char c hc s
  rw [h, utf8Decode_char d hd t] at hdecode
  obtain ⟨hval, rfl⟩ := Prod.mk.inj hdecode
  exact ⟨Char.ext hval.symm, rfl⟩

/-- A text that begins with the encoding of some characters begins with these characters. -/
lemma exists_append_of_flatMap (hcs : ∀ c ∈ cs, c.val ≠ 0) (hds : ∀ d ∈ ds, d.val ≠ 0)
    (h : cs.flatMap String.utf8EncodeChar ++ u = ds.flatMap String.utf8EncodeChar) :
    ∃ es, ds = cs ++ es ∧ u = es.flatMap String.utf8EncodeChar := by
  induction cs generalizing ds with
  | nil => exact ⟨ds, rfl, h⟩
  | cons c cs ih =>
    have hc := hcs c List.mem_cons_self
    cases ds with
    | nil =>
      have hne := headD_encode_ne_zero hc (cs.flatMap String.utf8EncodeChar ++ u)
      rw [List.flatMap_cons, List.append_assoc] at h
      rw [h] at hne
      exact absurd rfl hne
    | cons d ds =>
      rw [List.flatMap_cons, List.flatMap_cons, List.append_assoc] at h
      obtain ⟨rfl, hrest⟩ := encode_append_inj hc (hds d List.mem_cons_self) h
      obtain ⟨es, rfl, hu⟩ := ih (fun e he => hcs e (List.mem_cons_of_mem _ he))
        (fun e he => hds e (List.mem_cons_of_mem _ he)) hrest
      exact ⟨es, rfl, hu⟩

lemma flatMap_inj (hcs : ∀ c ∈ cs, c.val ≠ 0) (hds : ∀ d ∈ ds, d.val ≠ 0)
    (h : cs.flatMap String.utf8EncodeChar = ds.flatMap String.utf8EncodeChar) : cs = ds := by
  have hmap := congrArg decodeAll h
  rw [decodeAll_flatMap hcs, decodeAll_flatMap hds] at hmap
  exact List.map_injective_iff.mpr (fun a b hab => Char.ext hab) hmap

lemma val_ne_zero_of_append (ht : t ≠ []) (hu : u ≠ []) (h : String.utf8EncodeChar c = t ++ u) :
    c.val ≠ 0 := by
  intro hzero
  obtain rfl : c = Char.ofNat 0 := Char.ext hzero
  have hlen := congrArg List.length h
  have ht' := List.length_pos_iff.mpr ht
  have hu' := List.length_pos_iff.mpr hu
  rw [List.length_append] at hlen
  change 1 = _ at hlen
  omega

/-- A window that cuts a sequence off is not well formed. -/
lemma Straddles.not_wellFormed (h0 : 0 ∉ w) (h : Straddles w rest) : ¬WellFormed w := by
  rintro ⟨ds, hds⟩
  obtain ⟨cs, c, t, u, hw, hc, ht, hu, -, -, -⟩ := h
  have hcs : ∀ e ∈ cs, e.val ≠ 0 := by
    apply val_ne_zero_of_not_mem
    exact fun hmem => h0 (hw ▸ List.mem_append_left _ hmem)
  have hzero : ∀ e ∈ cs ++ [c], e.val ≠ 0 := by
    intro e he
    rcases List.mem_append.mp he with he | he
    · exact hcs e he
    · rw [List.mem_singleton.mp he]
      exact val_ne_zero_of_append ht hu hc
  have htext : ds.flatMap String.utf8EncodeChar ++ u =
      (cs ++ [c]).flatMap String.utf8EncodeChar := by
    rw [← hds, hw, List.flatMap_append, List.flatMap_singleton, hc, List.append_assoc]
  obtain ⟨es, hes, rfl⟩ := exists_append_of_flatMap (val_ne_zero_of_not_mem (hds ▸ h0)) hzero htext
  -- what completes the window would have to be the last character as a whole
  rcases List.eq_nil_or_concat es with rfl | ⟨fs, e, rfl⟩
  · exact hu rfl
  · rw [List.concat_eq_append, ← List.append_assoc] at hes
    obtain ⟨-, hlast⟩ := List.append_inj' hes rfl
    obtain rfl := List.singleton_inj.mp hlast
    have hlen := congrArg List.length hc
    have ht' := List.length_pos_iff.mpr ht
    rw [List.concat_eq_append, List.flatMap_append, List.flatMap_singleton, List.length_append,
      List.length_append] at hlen
    omega

/-! ## The loop -/

lemma passes_nil : Passes [] rest := Or.inl ⟨[], rfl, List.not_mem_nil⟩

lemma Passes.cons (hc : c ≠ replacement) (h : Passes w rest) :
    Passes (String.utf8EncodeChar c ++ w) rest := by
  have hmem : ∀ {cs : List Char}, replacement ∉ cs → replacement ∉ c :: cs := by
    intro cs hcs h
    rcases List.mem_cons.mp h with h | h
    · exact hc h.symm
    · exact hcs h
  rcases h with ⟨cs, rfl, hcs⟩ | ⟨cs, d, t, u, rfl, hd, ht, hu, hrest, hcs, hne⟩
  · exact Or.inl ⟨c :: cs, rfl, hmem hcs⟩
  · refine Or.inr ⟨c :: cs, d, t, u, ?_, hd, ht, hu, hrest, hmem hcs, hne⟩
    rw [List.flatMap_cons, List.append_assoc]

/-- A window that is not empty begins with a character, or is the beginning of one. -/
lemma Passes.cases (hw : w ≠ []) (h : Passes w rest) :
    (∃ c w', c ≠ replacement ∧ w = String.utf8EncodeChar c ++ w' ∧ Passes w' rest) ∨
      ∃ c u, c ≠ replacement ∧ String.utf8EncodeChar c = w ++ u ∧ u ≠ [] ∧ u <+: rest := by
  rcases h with ⟨cs, rfl, hcs⟩ | ⟨cs, d, t, u, rfl, hd, ht, hu, hrest, hcs, hne⟩
  · cases cs with
    | nil => exact absurd rfl hw
    | cons c cs =>
      refine Or.inl ⟨c, _, fun h => hcs (h ▸ List.mem_cons_self), rfl, Or.inl ⟨cs, rfl, ?_⟩⟩
      exact fun h => hcs (List.mem_cons_of_mem _ h)
  · cases cs with
    | nil => exact Or.inr ⟨d, u, hne, hd, hu, hrest⟩
    | cons c cs =>
      refine Or.inl ⟨c, cs.flatMap String.utf8EncodeChar ++ t, fun h =>
        hcs (h ▸ List.mem_cons_self), ?_, Or.inr ⟨cs, d, t, u, rfl, hd, ht, hu, hrest, ?_, hne⟩⟩
      · rw [List.flatMap_cons, List.append_assoc]
      · exact fun h => hcs (List.mem_cons_of_mem _ h)

lemma val_ne_zero_of_encoded (h0 : 0 ∉ w) (h : w = String.utf8EncodeChar c ++ t) : c.val ≠ 0 :=
  fun hzero => h0 (h ▸ List.mem_append_left _ (zero_mem_encode_iff.mpr hzero))

/-- A window that passes begins with a character that is no error. -/
lemma Passes.decode_ne (hw : w ≠ []) (h0 : 0 ∉ w) (h : Passes w rest) :
    (utf8Decode (w ++ rest)).1 ≠ runeError := by
  intro herror
  rcases h.cases hw with ⟨c, w', hc, hwc, -⟩ | ⟨c, u, hc, hwc, hu, ⟨r, hr⟩⟩
  · have hzero := val_ne_zero_of_encoded h0 hwc
    rw [hwc, List.append_assoc, utf8Decode_char c hzero] at herror
    exact hc (Char.ext herror)
  · have hzero := val_ne_zero_of_append hw hu hwc
    rw [← hr, ← List.append_assoc, ← hwc, utf8Decode_char c hzero] at herror
    exact hc (Char.ext herror)

/-- Behind a character of the window the rest of it is looked at. -/
lemma passes_cons_iff (h0 : 0 ∉ String.utf8EncodeChar c ++ w) (hc : c ≠ replacement) :
    Passes (String.utf8EncodeChar c ++ w) rest ↔ Passes w rest := by
  have hzero : c.val ≠ 0 := val_ne_zero_of_encoded h0 rfl
  refine ⟨fun h => ?_, Passes.cons hc⟩
  have hne : String.utf8EncodeChar c ++ w ≠ [] := by
    have hhead := headD_encode_ne_zero hzero w
    intro hnil
    rw [hnil] at hhead
    exact hhead rfl
  rcases h.cases hne with ⟨d, w', -, hwd, hpass⟩ | ⟨d, u, -, hwd, hu, -⟩
  · obtain ⟨-, rfl⟩ := encode_append_inj hzero (val_ne_zero_of_encoded h0 hwd) hwd
    exact hpass
  · have hd := val_ne_zero_of_append hne hu hwd
    rw [List.append_assoc, ← List.append_nil (String.utf8EncodeChar d)] at hwd
    obtain ⟨-, hnil⟩ := encode_append_inj hd hzero hwd
    exact absurd (List.append_eq_nil_iff.mp hnil.symm).2 hu

/-- The loop accepts what it should accept, without U+FFFD, and windows that cut a sequence off. -/
lemma validLoop_eq_one_iff {bounded : Bool} {left : ℕ}
    (h : bounded = true ∧ left = w.length ∨ bounded = false ∧ rest = []) (h0 : 0 ∉ w) :
    validLoop bounded (w ++ rest) left = 1 ↔ Passes w rest := by
  induction hlen : w.length using Nat.strong_induction_on generalizing w left with
  | _ k ih =>
  subst hlen
  rw [validLoop]
  by_cases hw : w = []
  · subst hw
    rw [if_neg]
    · exact iff_of_true rfl passes_nil
    · rintro ⟨hhead, hopen⟩
      rcases h with ⟨hb, hleft⟩ | ⟨-, rfl⟩
      · rw [hb, hleft] at hopen
        simp at hopen
      · exact hhead rfl
  have hhead : (w ++ rest).headD 0 ≠ 0 := by
    cases w with
    | nil => exact absurd rfl hw
    | cons b w => exact fun hb => h0 (hb ▸ List.mem_cons_self)
  have hopen : bounded = false ∨ 0 < left := by
    rcases h with ⟨-, hleft⟩ | ⟨hb, -⟩
    · exact Or.inr (hleft ▸ List.length_pos_iff.mpr hw)
    · exact Or.inl hb
  rw [if_pos ⟨hhead, hopen⟩]
  by_cases herror : (utf8Decode (w ++ rest)).1 = runeError
  · rw [if_pos herror]
    exact iff_of_false (by decide) fun hpass => hpass.decode_ne hw h0 herror
  rw [if_neg herror]
  rcases hdecode : utf8Decode (w ++ rest) with ⟨cp, s⟩
  rw [hdecode] at herror
  have heof := utf8Decode_ne_eof hhead
  rw [hdecode] at heof
  obtain ⟨c, hval, htext⟩ := exists_char_of_decode hdecode herror heof
  have hc : c ≠ replacement := by
    rintro rfl
    exact herror hval.symm
  have hpos : 0 < (String.utf8EncodeChar c).length := by
    rw [String.length_utf8EncodeChar]
    exact c.utf8Size_pos
  have hsplit : (∃ w', w = String.utf8EncodeChar c ++ w' ∧ s = w' ++ rest) ∨
      ∃ u, u ≠ [] ∧ String.utf8EncodeChar c = w ++ u ∧ rest = u ++ s := by
    rcases List.append_eq_append_iff.mp htext with ⟨u, hcu, hrest⟩ | hinside
    · rcases eq_or_ne u [] with rfl | hu
      · exact Or.inl ⟨[], by rw [hcu, List.append_nil, List.append_nil], hrest.symm⟩
      · exact Or.inr ⟨u, hu, hcu, hrest⟩
    · exact Or.inl hinside
  dsimp only
  rcases hsplit with ⟨w', rfl, rfl⟩ | ⟨u, hu, hcu, rfl⟩
  · -- the character lies inside the window
    rw [passes_cons_iff h0 hc]
    refine ih w'.length ?_ ?_ (fun hmem => h0 (List.mem_append_right _ hmem)) rfl
    · rw [List.length_append]
      omega
    · refine h.imp (fun hb => ⟨hb.1, ?_⟩) id
      rw [hb.2]
      simp only [List.length_append]
      omega
  · -- the character ends behind the window
    obtain ⟨rfl, rfl⟩ : bounded = true ∧ left = w.length :=
      h.resolve_right fun hb => hu (List.append_eq_nil_iff.mp hb.2).1
    have hlen := congrArg List.length hcu
    rw [List.length_append] at hlen
    have hleft : w.length - ((w ++ (u ++ s)).length - s.length) = 0 := by
      simp only [List.length_append]
      omega
    have hstop : ¬(s.headD 0 ≠ 0 ∧ (true = false ∨ 0 < 0)) := by
      rintro ⟨-, hb | hlt⟩
      · cases hb
      · exact absurd hlt (lt_irrefl 0)
    rw [hleft, validLoop, if_neg hstop]
    refine iff_of_true rfl (Or.inr ⟨[], c, w, u, rfl, hcu, hw, hu, ?_, List.not_mem_nil, hc⟩)
    exact List.prefix_append u s

/-! ## What is decided -/

/-- `utf8_valid` decides whether a window is well formed, whatever follows it, exactly if the window
is no well-formed text with U+FFFD in it, and no sequence is cut off by its end and completed by
what follows. -/
theorem utf8Valid_decides_iff {len : ℕ} (h0 : 0 ∉ w)
    (hlen : len = w.length ∧ w.length < sizeMax ∨ len = sizeMax ∧ rest = []) :
    (utf8Valid (w ++ rest) len = 1 ↔ WellFormed w) ↔
      (∀ cs : List Char, w = cs.flatMap String.utf8EncodeChar → replacement ∉ cs) ∧
        ¬Straddles w rest := by
  have hloop : utf8Valid (w ++ rest) len = 1 ↔ Passes w rest := by
    refine validLoop_eq_one_iff ?_ h0
    rcases hlen with ⟨rfl, hlt⟩ | ⟨rfl, hrest⟩
    · exact Or.inl ⟨decide_eq_true hlt.ne, rfl⟩
    · exact Or.inr ⟨decide_eq_false (not_not.mpr rfl), hrest⟩
  rw [hloop]
  constructor
  · intro h
    have hstraddles : ¬Straddles w rest := fun hs => hs.not_wellFormed h0 (h.mp (Or.inr hs))
    refine ⟨fun cs hcs hmem => ?_, hstraddles⟩
    rcases h.mpr ⟨cs, hcs⟩ with ⟨ds, hds, hnot⟩ | hs
    · have heq := flatMap_inj (val_ne_zero_of_not_mem (hcs ▸ h0))
        (val_ne_zero_of_not_mem (hds ▸ h0))
        (hcs.symm.trans hds)
      exact hnot (heq ▸ hmem)
    · exact hstraddles hs
  · rintro ⟨hmark, hstraddles⟩
    constructor
    · rintro (⟨cs, hcs, -⟩ | hs)
      · exact ⟨cs, hcs⟩
      · exact absurd hs hstraddles
    · rintro ⟨cs, hcs⟩
      exact Or.inl ⟨cs, hcs, hmark cs hcs⟩

/-- A window with two characters of several bytes and the first byte of a third one. -/
theorem utf8Valid_decides_iff_cut :
    (utf8Valid ([0xC3, 0xA9, 0xE2, 0x82, 0xAC, 0xC3] ++ [0xA9]) 6 = 1 ↔
      WellFormed [0xC3, 0xA9, 0xE2, 0x82, 0xAC, 0xC3]) ↔
    (∀ cs : List Char, [0xC3, 0xA9, 0xE2, 0x82, 0xAC, 0xC3] = cs.flatMap String.utf8EncodeChar →
      replacement ∉ cs) ∧ ¬Straddles [0xC3, 0xA9, 0xE2, 0x82, 0xAC, 0xC3] [0xA9] :=
  utf8Valid_decides_iff (by decide) (Or.inl ⟨rfl, by decide⟩)

/-- The encoding of U+FFFD is not accepted. -/
theorem not_utf8Valid_decides : ¬∀ (w rest : List UInt8) (len : ℕ), 0 ∉ w →
    (len = w.length ∧ w.length < sizeMax ∨ len = sizeMax ∧ rest = []) →
    (utf8Valid (w ++ rest) len = 1 ↔ WellFormed w) := by
  intro h
  have hiff := h [0xEF, 0xBF, 0xBD] [] 3 (by decide) (Or.inl ⟨rfl, by decide⟩)
  have hvalid := hiff.mpr ⟨[replacement], by decide⟩
  rw [utf8Valid, validLoop, if_pos (by decide), if_pos (by decide)] at hvalid
  exact absurd hvalid (by decide)

end Rune

end CoolFrost

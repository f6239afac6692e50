import Mathlib.Data.List.TakeWhile
import CoolFrost.Fs.Fat32.Dir

/-!
# FAT32: names in the 8.3 format

`fat32_parse_83` pads a name with spaces and `fat32_format_83` stops at the first space, so that a
name comes back as it was, but for the case of its letters, if it has no space and no dot at its
end.
-/

namespace CoolFrost

namespace Fat32

variable {c x : UInt8} {l l' name raw : List UInt8}

/-! ## Upper case -/

lemma toNat_upper (c : UInt8) :
    (upper c).toNat = if 97 ≤ c.toNat ∧ c.toNat ≤ 122 then c.toNat - 32 else c.toNat := by
  have h97 : (97 : UInt8).toNat = 97 := rfl
  have h122 : (122 : UInt8).toNat = 122 := rfl
  have h32 : (32 : UInt8).toNat = 32 := rfl
  unfold upper
  simp only [UInt8.le_iff_toNat_le, h97, h122]
  split_ifs with h
  · rw [UInt8.toNat_sub_of_le _ _ (UInt8.le_iff_toNat_le.mpr (by omega)), h32]
  · rfl

/-- What is no letter is in upper case only if it was there before. -/
lemma upper_eq_iff (hx : x.toNat < 65 ∨ 122 < x.toNat) : upper c = x ↔ c = x := by
  rw [← UInt8.toNat_inj, ← UInt8.toNat_inj, toNat_upper]
  split_ifs <;> omega

lemma upper_upper (c : UInt8) : upper (upper c) = upper c := by
  rw [← UInt8.toNat_inj, toNat_upper (upper c), toNat_upper c]
  split_ifs <;> omega

/-- Two strings without a zero byte are equal up to the case of letters if `fat32_strcasecmp` says
so. -/
lemma strcasecmp_eq_zero_iff (h : (0 : UInt8) ∉ l) (h' : (0 : UInt8) ∉ l') :
    fat32Strcasecmp l l' = 0 ↔ l.map upper = l'.map upper := by
  have hpos : ∀ x : UInt8, x ≠ 0 → (x.toNat : ℤ) ≠ 0 := by
    intro x hx h0
    refine hx (UInt8.toNat_inj.mp ?_)
    simpa using h0
  induction l generalizing l' with
  | nil =>
    cases l' with
    | nil => simp [fat32Strcasecmp]
    | cons b l' =>
      have hb := hpos b (fun h0 => h' (h0 ▸ List.mem_cons_self))
      simpa [fat32Strcasecmp] using hb
  | cons a l ih =>
    cases l' with
    | nil =>
      have ha := hpos a (fun h0 => h (h0 ▸ List.mem_cons_self))
      simpa [fat32Strcasecmp] using ha
    | cons b l' =>
      have hrest : fat32Strcasecmp l l' = 0 ↔ l.map upper = l'.map upper :=
        ih (fun h0 => h (List.mem_cons_of_mem _ h0)) fun h0 => h' (List.mem_cons_of_mem _ h0)
      rw [fat32Strcasecmp, List.map_cons, List.map_cons, List.cons.injEq]
      split_ifs with hne
      · have hdiff : ((upper a).toNat : ℤ) - (upper b).toNat ≠ 0 := by
          intro h0
          refine hne (UInt8.toNat_inj.mp ?_)
          omega
        simp [hdiff, hne]
      · rw [hrest]
        simp [not_not.mp hne]

/-- A name in the 8.3 format has no zero byte. -/
lemma zero_not_mem_format (b : Bytes) (a : ℕ) : (0 : UInt8) ∉ fat32Format83 b a := by
  intro h
  have hne := List.mem_takeWhile_imp h
  simp at hne

/-- The format reads 11 bytes. -/
lemma format_congr {b b' : Bytes} {a a' : ℕ} (h : ∀ i < 11, b' (a' + i) = b (a + i)) :
    fat32Format83 b' a' = fat32Format83 b a := by
  have hbase : Bytes.slice b' a' 8 = Bytes.slice b a 8 :=
    Bytes.slice_congr fun i hi => h i (by omega)
  have hext : Bytes.slice b' (a' + 8) 3 = Bytes.slice b (a + 8) 3 := by
    refine Bytes.slice_congr fun i hi => ?_
    rw [Nat.add_assoc, Nat.add_assoc]
    exact h (8 + i) (by omega)
  rw [fat32Format83, fat32Format83, hbase, hext, h 8 (by omega)]

/-! ## The parts of a name -/

/-- The part of a name in front of its first dot. -/
def baseOf (name : List UInt8) : List UInt8 := name.takeWhile (· ≠ dot)

/-- The part behind it. -/
def extOf (name : List UInt8) : List UInt8 := (name.dropWhile (· ≠ dot)).tail

/-- A name is its base, followed by a dot and its extension if it has a dot. -/
lemma name_eq (name : List UInt8) :
    name = baseOf name ++ if dot ∈ name then dot :: extOf name else [] := by
  induction name with
  | nil => rfl
  | cons c l ih =>
    by_cases hc : c = dot
    · simp [baseOf, extOf, hc]
    · have hbase : baseOf (c :: l) = c :: baseOf l := by simp [baseOf, hc]
      have hext : extOf (c :: l) = extOf l := by simp [extOf, hc]
      have hmem : dot ∈ c :: l ↔ dot ∈ l := by simp [Ne.symm hc]
      simp only [hbase, hext, hmem, List.cons_append, List.cons.injEq, true_and]
      exact ih

lemma extOf_of_not_mem (h : dot ∉ name) : extOf name = [] := by
  have hnil : name.dropWhile (fun c => decide (c ≠ dot)) = [] := by
    rw [List.dropWhile_eq_nil_iff]
    intro c hc
    have hne : c ≠ dot := fun heq => h (heq ▸ hc)
    simpa using hne
  rw [extOf, hnil, List.tail_nil]

/-- What `fat32_parse_83` accepts. -/
lemma parse_eq_some (h : fat32Parse83 name = some raw) :
    (baseOf name).length ≤ 8 ∧ baseOf name ≠ [] ∧ dot ∉ extOf name ∧ (extOf name).length ≤ 3 ∧
      raw = padTo 8 ((baseOf name).map upper) ++ padTo 3 ((extOf name).map upper) := by
  unfold fat32Parse83 at h
  extract_lets base ext at h
  split_ifs at h with hbase hext
  cases h
  obtain ⟨hlen, hne⟩ := not_or.mp hbase
  obtain ⟨hdot, hlen'⟩ := not_or.mp hext
  exact ⟨Nat.le_of_not_lt hlen, hne, hdot, Nat.le_of_not_lt hlen', rfl⟩

/-- Everything up to the first space. -/
def trim (l : List UInt8) : List UInt8 := l.takeWhile (· ≠ 32)

lemma length_trim_le (l : List UInt8) : (trim l).length ≤ l.length :=
  (List.takeWhile_sublist _).length_le

lemma trim_eq_self_iff : trim l = l ↔ (32 : UInt8) ∉ l := by
  rw [trim, List.takeWhile_eq_self_iff]
  constructor
  · intro h hmem
    simpa using h 32 hmem
  · intro h c hc
    have hne : c ≠ 32 := fun heq => h (heq ▸ hc)
    simpa using hne

lemma trim_append_spaces (l : List UInt8) (k : ℕ) : trim (l ++ List.replicate k 32) = trim l := by
  induction l with
  | nil => cases k <;> simp [trim, List.replicate_succ]
  | cons c l ih =>
    simp only [trim] at ih ⊢
    rw [List.cons_append, List.takeWhile_cons, List.takeWhile_cons, ih]

lemma mem_of_mem_trim (h : c ∈ trim l) : c ∈ l := (List.takeWhile_sublist _).subset h

/-- The bytes of a list in a buffer. -/
lemma slice_ofList {off len : ℕ} (h : off + len ≤ l.length) :
    Bytes.slice (Bytes.ofList l) off len = (l.drop off).take len := by
  refine List.ext_getElem (by simp; omega) fun i hi hi' => ?_
  rw [Bytes.length_slice] at hi
  simp [Bytes.slice, Bytes.ofList, List.getD_eq_getElem?_getD,
    List.getElem?_eq_getElem (show off + i < l.length by omega)]

/-- The name that is read back. -/
lemma format_parse (h : fat32Parse83 name = some raw) (h0 : (0 : UInt8) ∉ name) :
    fat32Format83 (Bytes.ofList raw) 0 = trim ((baseOf name).map upper) ++
      if trim ((extOf name).map upper) = [] then [] else dot :: trim ((extOf name).map upper) := by
  obtain ⟨hbase, -, -, hext, rfl⟩ := parse_eq_some h
  have hzero : ∀ l : List UInt8, (∀ c ∈ l, c ∈ name) → ∀ c ∈ trim (l.map upper), c ≠ 0 := by
    rintro l hl c hc rfl
    obtain ⟨c', hc', hup⟩ := List.mem_map.mp (mem_of_mem_trim hc)
    rw [upper_eq_iff (.inl (by decide))] at hup
    exact h0 (hup ▸ hl c' hc')
  have hb0 := hzero (baseOf name) fun c hc => (List.takeWhile_sublist _).subset hc
  have he0 := hzero (extOf name) fun c hc =>
    (List.dropWhile_sublist _).subset ((List.tail_sublist _).subset hc)
  rw [← List.length_map (f := upper)] at hbase hext
  generalize (baseOf name).map upper = b at *
  generalize (extOf name).map upper = e at *
  have hblen : (padTo 8 b).length = 8 := by
    rw [padTo, List.length_append, List.length_replicate]
    omega
  have helen : (padTo 3 e).length = 3 := by
    rw [padTo, List.length_append, List.length_replicate]
    omega
  have hb : Bytes.slice (Bytes.ofList (padTo 8 b ++ padTo 3 e)) 0 8 = padTo 8 b := by
    rw [slice_ofList (by rw [List.length_append]; omega), List.drop_zero, List.take_left' hblen]
  have he : Bytes.slice (Bytes.ofList (padTo 8 b ++ padTo 3 e)) (0 + 8) 3 = padTo 3 e := by
    rw [slice_ofList (by rw [List.length_append]; omega), Nat.zero_add, List.drop_left' hblen,
      List.take_of_length_le helen.le]
  -- the extension is there if its first character is no space
  have hfirst : Bytes.ofList (padTo 8 b ++ padTo 3 e) (0 + 8) ≠ 32 ↔ trim e ≠ [] := by
    have hget : Bytes.ofList (padTo 8 b ++ padTo 3 e) (0 + 8) = (padTo 3 e).getD 0 0 := by
      rw [Bytes.ofList, List.getD_eq_getElem?_getD, List.getElem?_append_right (by omega), hblen,
        ← List.getD_eq_getElem?_getD]
    rw [hget]
    cases e with
    | nil => simp [padTo, trim]
    | cons c e =>
      by_cases hc : c = 32 <;> simp [padTo, trim, hc]
  have htrim : ∀ n l, (padTo n l).takeWhile (fun c => decide (c ≠ 32)) = trim l :=
    fun n l => trim_append_spaces l _
  unfold fat32Format83
  extract_lets base ext
  have hbase' : base = trim b := by
    change (Bytes.slice _ 0 8).takeWhile _ = _
    rw [hb, htrim]
  have hext' : ext = trim e := by
    change (Bytes.slice _ (0 + 8) 3).takeWhile _ = _
    rw [he, htrim]
  rw [hbase', hext']
  simp only [hfirst]
  by_cases hnil : trim e = []
  · rw [if_neg (not_not.mpr hnil), if_pos hnil, List.append_nil, List.takeWhile_eq_self_iff]
    intro c hc
    simpa using hb0 c hc
  · rw [if_pos hnil, if_neg hnil, List.takeWhile_eq_self_iff]
    intro c hc
    rcases List.mem_append.mp hc with hc | hc
    · simpa using hb0 c hc
    · rcases List.mem_cons.mp hc with rfl | hc
      · decide
      · simpa using he0 c hc

/-- A name that the format keeps. -/
def Lossless (name : List UInt8) : Prop := (32 : UInt8) ∉ name ∧ name.getLast? ≠ some dot

instance (name : List UInt8) : Decidable (Lossless name) := inferInstanceAs (Decidable (_ ∧ _))

/-- Nothing is trimmed off a part of a name if its length stays. -/
lemma space_not_mem_of_length (h : (trim (l.map upper)).length = l.length) : (32 : UInt8) ∉ l := by
  have hlen : (trim (l.map upper)).length = (l.map upper).length := by rw [h, List.length_map]
  have hself : trim (l.map upper) = l.map upper := (List.takeWhile_prefix _).eq_of_length hlen
  rw [trim_eq_self_iff] at hself
  exact fun hmem => hself (List.mem_map.mpr ⟨32, hmem, by decide⟩)

lemma trim_map_upper (h : (32 : UInt8) ∉ l) : trim (l.map upper) = l.map upper := by
  rw [trim_eq_self_iff]
  intro hmem
  obtain ⟨c, hc, hup⟩ := List.mem_map.mp hmem
  rw [upper_eq_iff (.inl (by decide))] at hup
  exact h (hup ▸ hc)

/-- The name comes back in upper case exactly if it has no space and no dot at its end. -/
lemma format_parse_iff (h : fat32Parse83 name = some raw) (h0 : (0 : UInt8) ∉ name) :
    fat32Format83 (Bytes.ofList raw) 0 = name.map upper ↔ Lossless name := by
  obtain ⟨-, -, hdot, -, -⟩ := parse_eq_some h
  rw [format_parse h h0]
  have hsplit := name_eq name
  have hext := @extOf_of_not_mem name
  clear h h0
  generalize baseOf name = b at *
  generalize extOf name = e at *
  have hblen := length_trim_le (b.map upper)
  have helen := length_trim_le (e.map upper)
  rw [List.length_map] at hblen helen
  by_cases hmem : dot ∈ name
  · rw [if_pos hmem] at hsplit
    subst hsplit
    have hupper : (b ++ dot :: e).map upper = b.map upper ++ dot :: e.map upper := by
      rw [List.map_append, List.map_cons]
      rfl
    rw [hupper]
    constructor
    · -- nothing was cut off, or the lengths would differ
      intro heq
      have hlen := congrArg List.length heq
      rw [List.length_append, List.length_append, List.length_cons, List.length_map,
        List.length_map] at hlen
      by_cases hnil : trim (e.map upper) = []
      · rw [if_pos hnil, List.length_nil] at hlen
        omega
      rw [if_neg hnil, List.length_cons] at hlen
      have hb := space_not_mem_of_length (l := b) (by omega)
      have he := space_not_mem_of_length (l := e) (by omega)
      refine ⟨by simp [hb, he, dot], fun hlast => ?_⟩
      cases e with
      | nil => exact hnil rfl
      | cons c e =>
        rw [List.getLast?_append_cons, List.getLast?_cons_cons] at hlast
        exact hdot (List.mem_of_getLast? hlast)
    · rintro ⟨hno, hlast⟩
      have hb : (32 : UInt8) ∉ b := fun hm => hno (List.mem_append_left _ hm)
      have he : (32 : UInt8) ∉ e :=
        fun hm => hno (List.mem_append_right _ (List.mem_cons_of_mem _ hm))
      rw [trim_map_upper hb, trim_map_upper he, if_neg]
      rw [List.map_eq_nil_iff]
      rintro rfl
      exact hlast (by simp)
  · obtain rfl := hext hmem
    rw [if_neg hmem, List.append_nil] at hsplit
    subst hsplit
    have hnil : trim (([] : List UInt8).map upper) = [] := rfl
    rw [if_pos hnil, List.append_nil, trim_eq_self_iff]
    constructor
    · intro hno
      refine ⟨fun hm => hno (List.mem_map.mpr ⟨32, hm, by decide⟩), fun hlast => ?_⟩
      exact hmem (List.mem_of_getLast? hlast)
    · rintro ⟨hno, -⟩
      rw [← trim_eq_self_iff, trim_map_upper hno]

/-- The first byte that is stored. -/
lemma raw_first (h : fat32Parse83 name = some raw) :
    ∃ c rest, name = c :: rest ∧ raw.getD 0 0 = upper c := by
  obtain ⟨-, hne, -, -, rfl⟩ := parse_eq_some h
  cases name with
  | nil => exact absurd rfl hne
  | cons c rest =>
    refine ⟨c, rest, rfl, ?_⟩
    have hc : c ≠ dot := fun hc => hne (by simp [baseOf, hc])
    have hbase : baseOf (c :: rest) = c :: baseOf rest := by simp [baseOf, hc]
    rw [hbase]
    simp [padTo]

end Fat32

end CoolFrost

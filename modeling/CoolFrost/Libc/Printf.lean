import CoolFrost.Libc.Stdio

/-!
# One language of formats

A format of the language that `vsnprintf` documents is a list of characters and directives.
`printf` and `sprintf` know the directives without flags and width, and an `l` only before `d`, `u`,
`x` and `o`; every other directive they skip up to its second character, without taking its
argument.

That this always shows is a matter of counting percent signs: `vsnprintf` uses each of a format's to
take an argument or, two at a time, to emit one, and `printf` wastes those of the directives that it
skips.
-/

namespace CoolFrost

namespace Stdio

/-! ## Formats -/

/-- The specifiers. -/
inductive Spec where
  | d
  | u
  | x
  | X
  | o
  | c
  | s
  | f
  | p
  | percent
  deriving DecidableEq, Repr

/-- The character of a specifier. -/
def Spec.char : Spec → UInt8
  | .d => ch 'd'
  | .u => ch 'u'
  | .x => ch 'x'
  | .X => ch 'X'
  | .o => ch 'o'
  | .c => ch 'c'
  | .s => ch 's'
  | .f => ch 'f'
  | .p => ch 'p'
  | .percent => ch '%'

/-- A directive: flags `0`, then flags `-`, a width, a length modifier and a specifier. -/
structure Directive where
  zeros : ℕ
  minuses : ℕ
  width : List UInt8
  isLong : Bool
  spec : Spec
  width_digits : ∀ c ∈ width, ch '0' ≤ c ∧ c ≤ ch '9'

/-- A piece of a format. -/
inductive Item where
  | lit (c : UInt8) (h : c ≠ ch '%' ∧ c ≠ 0)
  | directive (d : Directive)

/-- The flags and the width of a directive as they are written. -/
def Directive.options (d : Directive) : List UInt8 :=
  List.replicate d.zeros (ch '0') ++ (List.replicate d.minuses (ch '-') ++ d.width)

/-- The length modifier and the specifier of a directive as they are written. -/
def Directive.tail (d : Directive) : List UInt8 :=
  (if d.isLong then [ch 'l'] else []) ++ [d.spec.char]

/-- A piece as it is written. -/
def Item.text : Item → List UInt8
  | .lit c _ => [c]
  | .directive d => ch '%' :: (d.options ++ d.tail)

/-- A format as it is written. -/
def text (fmt : List Item) : List UInt8 := fmt.flatMap Item.text

/-- The directive has no flags and no width, and an `l` only before `d`, `u`, `x` and `o`. -/
def Item.Plain : Item → Prop
  | .lit _ _ => True
  | .directive d =>
    d.options = [] ∧ (d.isLong = true → d.spec = .d ∨ d.spec = .u ∨ d.spec = .x ∨ d.spec = .o)

/-- Every directive of the format is plain. -/
def Plain (fmt : List Item) : Prop := ∀ i ∈ fmt, i.Plain

/-! ## Arguments -/

/-- The argument is one for the directive, and not a null pointer where a string is wanted. -/
def Directive.Takes (d : Directive) (a : Arg) : Prop :=
  match d.spec, a with
  | .d, .word64 _ | .u, .word64 _ | .x, .word64 _ | .X, .word64 _ | .o, .word64 _ => d.isLong = true
  | .d, .word32 _ | .u, .word32 _ | .x, .word32 _ | .X, .word32 _ | .o, .word32 _ =>
      d.isLong = false
  | .c, .word32 _ => True
  | .f, .double _ => True
  | .p, .ptr _ _ => True
  | .s, .ptr addr (some _) => addr ≠ 0
  | _, _ => False

/-- The arguments are those that the format wants. -/
def Matches : List Item → List Arg → Prop
  | [], args => args = []
  | .lit _ _ :: fmt, args => Matches fmt args
  | .directive d :: fmt, args =>
    if d.spec = .percent then Matches fmt args
    else ∃ a rest, args = a :: rest ∧ d.Takes a ∧ Matches fmt rest

/-- Whether the directive prints a character with code 0, as a number. -/
def Directive.nul (d : Directive) (args : List Arg) : ℕ :=
  match d.spec, args with
  | .c, .word32 v :: _ => if v.toUInt8 = 0 then 1 else 0
  | _, _ => 0

/-- The number of characters with code 0 among the arguments for `%c`. -/
def nuls : List Item → List Arg → ℕ
  | [], _ => 0
  | .lit _ _ :: fmt, args => nuls fmt args
  | .directive d :: fmt, args =>
    d.nul args + nuls fmt (if d.spec = .percent then args else args.tail)

/-- The argument cannot print a percent sign. -/
def Arg.NoPercent : Arg → Prop
  | .word32 v => v.toUInt8 ≠ ch '%'
  | .ptr _ (some str) => ch '%' ∉ str.bytes
  | _ => True

/-- `printf` prints, `sprintf` stores and `vsnprintf` stores in a buffer that is large enough the
same characters, and they leave the same arguments. -/
def Agree (fmt : List UInt8) (args : List Arg) : Prop :=
  ∃ out rest, printf fmt args = some (out, rest) ∧
    sprintf fmt args = some (out ++ [0], out.length, rest) ∧
    ∀ n, out.length < n → vsnprintf n fmt args = some (out ++ [0], out.length, rest)

/-! ## Texts of arguments -/

lemma cstr_of_nonzero {l : List UInt8} (h : 0 ∉ l) : cstr l = l := by
  rw [cstr, List.takeWhile_eq_self_iff]
  intro c hc
  have : c ≠ 0 := fun h0 => h (h0 ▸ hc)
  simpa using this

lemma zero_not_mem_cstr (l : List UInt8) : 0 ∉ cstr l := fun h => by
  have := List.mem_takeWhile_imp h
  simp at this

/-- The digits of `itoa` are no percent signs. -/
lemma percent_not_mem_itoa (v : Int64) (base : ℤ) : ch '%' ∉ itoa v base := by
  have hdigit : ∀ i, digitTable.getD i 0 ≠ ch '%' := by
    intro i
    by_cases hi : i < digitTable.length
    · rw [List.getD_eq_getElem?_getD, List.getElem?_eq_getElem hi, Option.getD_some]
      have hnone : ch '%' ∉ digitTable := by decide
      exact ne_of_mem_of_not_mem (List.getElem_mem hi) hnone
    · rw [List.getD_eq_getElem?_getD, List.getElem?_eq_none (Nat.le_of_not_lt hi)]
      decide
  have hloop : ∀ n v, ch '%' ∉ itoaLoop base n v := by
    intro n
    induction n with
    | zero => exact fun _ => List.not_mem_nil
    | succ n ih =>
      intro v
      rw [itoaLoop, List.mem_cons, not_or]
      refine ⟨(hdigit _).symm, ?_⟩
      split_ifs
      · exact List.not_mem_nil
      · exact ih _
  unfold itoa
  split_ifs
  · exact List.not_mem_nil
  · rw [List.mem_append, List.mem_reverse, not_or]
    exact ⟨by decide, hloop _ _⟩
  · rw [List.nil_append, List.mem_reverse]
    exact hloop _ _

lemma not_mem_cstr {c : UInt8} {l : List UInt8} (h : c ∉ l) : c ∉ cstr l :=
  fun hc => h (List.takeWhile_prefix _ |>.subset hc)

lemma not_mem_map_toupper {l : List UInt8} {c : UInt8} (hc : ∀ a, toupper a = c → a = c)
    (h : c ∉ l) : c ∉ l.map toupper := by
  intro hm
  obtain ⟨a, ha, hac⟩ := List.mem_map.mp hm
  exact h (hc a hac ▸ ha)

/-- Capital letters are made from small ones. -/
lemma toupper_eq {c : UInt8} (h : c < ch 'A' ∨ ch 'Z' < c) {a : UInt8} (ha : toupper a = c) :
    a = c := by
  have hall : ∀ i : Fin 256, toupper (UInt8.ofFin i) = UInt8.ofFin i ∨
      ch 'A' ≤ toupper (UInt8.ofFin i) ∧ toupper (UInt8.ofFin i) ≤ ch 'Z' := by decide +kernel
  rcases hall a.toFin with heq | ⟨h₁, h₂⟩
  · exact heq.symm.trans ha
  · change ch 'A' ≤ toupper a at h₁
    change toupper a ≤ ch 'Z' at h₂
    rw [ha] at h₁ h₂
    rcases h with h | h
    · exact absurd h₁ (UInt8.not_le.mpr h)
    · exact absurd h₂ (UInt8.not_le.mpr h)

lemma percent_not_mem_ftoa (v : Double) : ch '%' ∉ ftoa v := by
  have hllimit : ∀ l : List UInt8, ch '%' ∉ l → ch '%' ∉ llimit l 6 (ch '0') := by
    intro l hl
    unfold llimit
    split_ifs
    · exact fun h => hl (List.mem_of_mem_take h)
    · rw [List.mem_append, not_or, List.mem_replicate]
      exact ⟨hl, fun h => absurd h.2 (by decide)⟩
  simp only [ftoa, List.mem_append, not_or]
  refine ⟨⟨⟨?_, not_mem_cstr (percent_not_mem_itoa _ _)⟩, by decide⟩,
    hllimit _ (not_mem_cstr (percent_not_mem_itoa _ _))⟩
  split_ifs <;> decide

/-! ## Counting percent signs -/

/-- The number of percent signs in a text. -/
def percents (l : List UInt8) : ℕ := l.count (ch '%')

lemma percents_append (l l' : List UInt8) : percents (l ++ l') = percents l + percents l' :=
  List.count_append

lemma percents_cons (c : UInt8) (l : List UInt8) :
    percents (c :: l) = percents l + if c = ch '%' then 1 else 0 := by
  rw [percents, List.count_cons]
  simp [percents]

lemma percents_of_not_mem {l : List UInt8} (h : ch '%' ∉ l) : percents l = 0 :=
  List.count_eq_zero_of_not_mem h

/-- The specifier is one that `printf` knows. -/
def knownSpec (c : UInt8) : Bool :=
  c ∈ [ch 'd', ch 'u', ch 'x', ch 'X', ch 'o', ch 'f', ch 'p', ch 'c', ch 's', ch '%']

/-- The specifier is one that `printf` knows after an `l`. -/
def knownLong (c : UInt8) : Bool := c ∈ [ch 'd', ch 'u', ch 'x', ch 'o']

/-- The number of directives that `printf` skips. -/
def skipped : List UInt8 → ℕ
  | [] => 0
  | c :: rest =>
    if c ≠ ch '%' then skipped rest
    else
      match rest with
      | [] => 0
      | d :: rest =>
        if d = ch 'l' then
          match rest with
          | [] => 0
          | d :: rest => (if knownLong d then 0 else 1) + skipped rest
        else (if knownSpec d then 0 else 1) + skipped rest

lemma skipped_lit {c : UInt8} (h : c ≠ ch '%') (rest : List UInt8) :
    skipped (c :: rest) = skipped rest := by
  rw [skipped.eq_def]
  exact if_pos h

lemma skipped_long (d : UInt8) (rest : List UInt8) :
    skipped (ch '%' :: ch 'l' :: d :: rest) = (if knownLong d then 0 else 1) + skipped rest := by
  rw [skipped.eq_def]
  simp

lemma skipped_spec {d : UInt8} (h : d ≠ ch 'l') (rest : List UInt8) :
    skipped (ch '%' :: d :: rest) = (if knownSpec d then 0 else 1) + skipped rest := by
  rw [skipped.eq_def]
  simp [h]

lemma va32_eq {args : List Arg} {q : UInt32 × List Arg} :
    va32 args = some q ↔ args = .word32 q.1 :: q.2 := by
  obtain ⟨v, rest⟩ := q
  rcases args with _ | ⟨⟨⟩, args⟩ <;> simp [va32]

lemma va64_eq {args : List Arg} {q : UInt64 × List Arg} :
    va64 args = some q ↔ args = .word64 q.1 :: q.2 := by
  obtain ⟨v, rest⟩ := q
  rcases args with _ | ⟨⟨⟩, args⟩ <;> simp [va64]

lemma vaDouble_eq {args : List Arg} {q : Double × List Arg} :
    vaDouble args = some q ↔ args = .double q.1 :: q.2 := by
  obtain ⟨v, rest⟩ := q
  rcases args with _ | ⟨⟨⟩, args⟩ <;> simp [vaDouble]

lemma vaPtr_eq {args : List Arg} {q : (UInt64 × Option CStr) × List Arg} :
    vaPtr args = some q ↔ args = .ptr q.1.1 q.1.2 :: q.2 := by
  obtain ⟨⟨addr, str⟩, rest⟩ := q
  rcases args with _ | ⟨⟨⟩, args⟩ <;> simp [vaPtr, and_assoc]

/-- A specifier takes an argument and prints no percent sign for it, or it is the one that prints a
percent sign, or it is skipped. -/
lemma printSpec_cases {d : UInt8} {args : List Arg} {p : List UInt8 × List Arg}
    (h : printSpec d args = some p) :
    (∃ a, args = a :: p.2 ∧ knownSpec d = true ∧ (a.NoPercent → ch '%' ∉ p.1)) ∨
      (d = ch '%' ∧ p = ([ch '%'], args)) ∨ knownSpec d = false ∧ p = ([], args) := by
  have hnumber : ∀ v base, ch '%' ∉ cstr (itoa v base) := fun v base =>
    not_mem_cstr (percent_not_mem_itoa v base)
  unfold printSpec at h
  split_ifs at h with hd hu hx hX ho hf hp hc hs hpct
  · obtain ⟨q, hq, rfl⟩ := Option.map_eq_some_iff.mp h
    exact Or.inl ⟨_, va32_eq.mp hq, by simp [knownSpec, hd], fun _ => hnumber _ _⟩
  · obtain ⟨q, hq, rfl⟩ := Option.map_eq_some_iff.mp h
    exact Or.inl ⟨_, va32_eq.mp hq, by simp [knownSpec, hu], fun _ => hnumber _ _⟩
  · obtain ⟨q, hq, rfl⟩ := Option.map_eq_some_iff.mp h
    exact Or.inl ⟨_, va32_eq.mp hq, by simp [knownSpec, hx], fun _ => hnumber _ _⟩
  · obtain ⟨q, hq, rfl⟩ := Option.map_eq_some_iff.mp h
    exact Or.inl ⟨_, va32_eq.mp hq, by simp [knownSpec, hX], fun _ =>
      not_mem_map_toupper (fun a => toupper_eq (Or.inl (by decide))) (hnumber _ _)⟩
  · obtain ⟨q, hq, rfl⟩ := Option.map_eq_some_iff.mp h
    exact Or.inl ⟨_, va32_eq.mp hq, by simp [knownSpec, ho], fun _ => hnumber _ _⟩
  · obtain ⟨q, hq, rfl⟩ := Option.map_eq_some_iff.mp h
    exact Or.inl ⟨_, vaDouble_eq.mp hq, by simp [knownSpec, hf], fun _ =>
      not_mem_cstr (percent_not_mem_ftoa _)⟩
  · obtain ⟨q, hq, rfl⟩ := Option.map_eq_some_iff.mp h
    refine Or.inl ⟨_, vaPtr_eq.mp hq, by simp [knownSpec, hp], fun _ hmem => ?_⟩
    rcases List.mem_append.mp hmem with hmem | hmem
    · exact absurd hmem (by decide)
    · exact hnumber _ _ hmem
  · obtain ⟨q, hq, rfl⟩ := Option.map_eq_some_iff.mp h
    refine Or.inl ⟨_, va32_eq.mp hq, by simp [knownSpec, hc], fun hno hmem => hno ?_⟩
    exact (List.mem_singleton.mp hmem).symm
  · obtain ⟨q, hq, hstr⟩ := Option.bind_eq_some_iff.mp h
    obtain ⟨str, hsome, rfl⟩ := Option.map_eq_some_iff.mp hstr
    refine Or.inl ⟨_, vaPtr_eq.mp hq, by simp [knownSpec, hs], fun hno => ?_⟩
    rw [hsome] at hno
    exact hno
  · exact Or.inr (Or.inl ⟨hpct, (Option.some.inj h).symm⟩)
  · exact Or.inr (Or.inr ⟨by simp [knownSpec, *], (Option.some.inj h).symm⟩)

/-- The same after an `l`, where no specifier prints a percent sign. -/
lemma printLong_cases {d : UInt8} {args : List Arg} {p : List UInt8 × List Arg}
    (h : printLong d args = some p) :
    (∃ a, args = a :: p.2 ∧ knownLong d = true ∧ ch '%' ∉ p.1) ∨
      knownLong d = false ∧ p = ([], args) := by
  have hnumber : ∀ v base, ch '%' ∉ cstr (itoa v base) := fun v base =>
    not_mem_cstr (percent_not_mem_itoa v base)
  unfold printLong at h
  split_ifs at h with hd hu hx ho
  · obtain ⟨q, hq, rfl⟩ := Option.map_eq_some_iff.mp h
    exact Or.inl ⟨_, va64_eq.mp hq, by simp [knownLong, hd], hnumber _ _⟩
  · obtain ⟨q, hq, rfl⟩ := Option.map_eq_some_iff.mp h
    exact Or.inl ⟨_, va64_eq.mp hq, by simp [knownLong, hu], hnumber _ _⟩
  · obtain ⟨q, hq, rfl⟩ := Option.map_eq_some_iff.mp h
    exact Or.inl ⟨_, va64_eq.mp hq, by simp [knownLong, hx], hnumber _ _⟩
  · obtain ⟨q, hq, rfl⟩ := Option.map_eq_some_iff.mp h
    exact Or.inl ⟨_, va64_eq.mp hq, by simp [knownLong, ho], hnumber _ _⟩
  · exact Or.inr ⟨by simp [knownLong, *], (Option.some.inj h).symm⟩

lemma emit_eq_some {out : List UInt8} {r : Option (List UInt8 × List Arg)}
    {p : List UInt8 × List Arg} (h : emit out r = some p) :
    ∃ q, r = some q ∧ p = (out ++ q.1, q.2) := by
  obtain ⟨q, hq, rfl⟩ := Option.map_eq_some_iff.mp h
  exact ⟨q, hq, rfl⟩

/-- Each percent sign of a format makes `printf` take an argument, two of them make it emit one, and
those of skipped directives are wasted. -/
lemma percents_printFrom (fmt : List UInt8) (args : List Arg) (hargs : ∀ a ∈ args, a.NoPercent)
    (p : List UInt8 × List Arg) (h : printFrom fmt args = some p) :
    2 * percents p.1 + args.length + skipped fmt ≤ percents fmt + p.2.length := by
  fun_induction printFrom fmt args generalizing p with
  | case1 args =>
    obtain rfl := Option.some.inj h
    simp [percents, skipped]
  | case2 c rest args hc ih =>
    obtain ⟨q, hq, rfl⟩ := emit_eq_some h
    have := ih hargs q hq
    rw [skipped_lit hc, percents_cons c rest, if_neg hc, percents_append, percents_cons,
      if_neg hc, percents_of_not_mem List.not_mem_nil]
    dsimp only
    omega
  | case3 => cases h
  | case4 => cases h
  | case5 c args hc d rest ih =>
    obtain ⟨q, hq, hemit⟩ := Option.bind_eq_some_iff.mp h
    obtain ⟨r, hr, rfl⟩ := emit_eq_some hemit
    obtain rfl := not_not.mp hc
    have hl : ch 'l' ≠ ch '%' := by decide
    rw [skipped_long, percents_cons (ch '%'), percents_cons (ch 'l'), percents_cons d, if_pos rfl,
      if_neg hl, percents_append]
    rcases printLong_cases hq with ⟨a, rfl, hk, hout⟩ | ⟨hk, rfl⟩
    · have := ih q (fun b hb => hargs b (List.mem_cons_of_mem _ hb)) r hr
      rw [percents_of_not_mem hout, if_pos hk, List.length_cons]
      dsimp only
      omega
    · have := ih _ hargs r hr
      rw [percents_of_not_mem List.not_mem_nil, if_neg (by simp [hk])]
      dsimp only at this ⊢
      omega
  | case6 c args hc d rest hd ih =>
    obtain ⟨q, hq, hemit⟩ := Option.bind_eq_some_iff.mp h
    obtain ⟨r, hr, rfl⟩ := emit_eq_some hemit
    obtain rfl := not_not.mp hc
    rw [skipped_spec hd, percents_cons (ch '%'), percents_cons d, if_pos rfl, percents_append]
    rcases printSpec_cases hq with ⟨a, rfl, hk, hout⟩ | ⟨rfl, rfl⟩ | ⟨hk, rfl⟩
    · have := ih q (fun b hb => hargs b (List.mem_cons_of_mem _ hb)) r hr
      rw [percents_of_not_mem (hout (hargs a List.mem_cons_self)), if_pos hk, List.length_cons]
      dsimp only
      omega
    · have := ih _ hargs r hr
      have hk : knownSpec (ch '%') = true := by decide
      rw [if_pos hk, if_pos rfl, percents_cons, if_pos rfl, percents_of_not_mem List.not_mem_nil]
      dsimp only at this ⊢
      omega
    · have := ih _ hargs r hr
      rw [percents_of_not_mem List.not_mem_nil, if_neg (by simp [hk])]
      dsimp only at this ⊢
      omega

/-! ## What vsnprintf makes of a directive -/

lemma parseFlags_zeros (n : ℕ) (zero : Bool) :
    ∃ zero', ∀ t, parseFlags (List.replicate n (ch '0') ++ t) false zero =
      parseFlags t false zero' := by
  induction n generalizing zero with
  | zero => exact ⟨zero, fun _ => rfl⟩
  | succ n ih =>
    obtain ⟨zero', h⟩ := ih true
    exact ⟨zero', h⟩

lemma parseFlags_minuses (n : ℕ) (left zero : Bool) :
    ∃ left' zero', ∀ t, parseFlags (List.replicate n (ch '-') ++ t) left zero =
      parseFlags t left' zero' := by
  induction n generalizing left zero with
  | zero => exact ⟨left, zero, fun _ => rfl⟩
  | succ n ih =>
    obtain ⟨left', zero', h⟩ := ih true false
    exact ⟨left', zero', h⟩

/-- Zeros at the front of the width are taken for flags. -/
lemma parseFlags_width {w : List UInt8} (hw : ∀ c ∈ w, ch '0' ≤ c ∧ c ≤ ch '9') {t : List UInt8}
    (ht : ∀ c ∈ t.head?, c ≠ ch '-' ∧ c ≠ ch '0') (left zero : Bool) :
    ∃ zero' w', (∀ c ∈ w', ch '0' ≤ c ∧ c ≤ ch '9') ∧
      parseFlags (w ++ t) left zero = (left, zero', w' ++ t) := by
  induction w generalizing zero with
  | nil =>
    refine ⟨zero, [], by simp, ?_⟩
    cases t with
    | nil => rfl
    | cons c t =>
      obtain ⟨h₁, h₂⟩ := ht c rfl
      simp [parseFlags, h₁, h₂]
  | cons c w ih =>
    have hc : c ≠ ch '-' := fun h => absurd (hw c List.mem_cons_self) (by rw [h]; decide)
    rw [List.cons_append, parseFlags, if_neg hc]
    split_ifs
    · exact ih (fun b hb => hw b (List.mem_cons_of_mem _ hb)) true
    · exact ⟨zero, c :: w, hw, rfl⟩

/-- The width is parsed up to what follows it. -/
lemma parseWidth_digits {w : List UInt8} (hw : ∀ c ∈ w, ch '0' ≤ c ∧ c ≤ ch '9') {t : List UInt8}
    (ht : ∀ c ∈ t.head?, ¬(ch '0' ≤ c ∧ c ≤ ch '9')) (n : ℕ) :
    ∃ width, parseWidth (w ++ t) n = (width, t) := by
  induction w generalizing n with
  | nil =>
    refine ⟨n, ?_⟩
    cases t with
    | nil => rfl
    | cons c t => exact if_neg (ht c rfl)
  | cons c w ih =>
    rw [List.cons_append, parseWidth, if_pos (hw c List.mem_cons_self)]
    exact ih (fun b hb => hw b (List.mem_cons_of_mem _ hb)) _

/-- The specifiers and the length modifier are no flags and no digits. -/
lemma head?_tail (d : Directive) (rest : List UInt8) :
    ∀ c ∈ (d.tail ++ rest).head?, (c ≠ ch '-' ∧ c ≠ ch '0') ∧ ¬(ch '0' ≤ c ∧ c ≤ ch '9') := by
  intro c hc
  unfold Directive.tail at hc
  split_ifs at hc
  · obtain rfl : ch 'l' = c := by simpa using hc
    decide
  · obtain rfl : d.spec.char = c := by simpa using hc
    cases d.spec <;> decide

lemma char_ne_l (spec : Spec) : spec.char ≠ ch 'l' := by cases spec <;> decide

lemma parseLength_tail (d : Directive) (rest : List UInt8) :
    parseLength (d.tail ++ rest) = (d.isLong, d.spec.char :: rest) := by
  cases h : d.isLong with
  | true => simp [Directive.tail, h, parseLength]
  | false => simp [Directive.tail, h, parseLength, char_ne_l]

/-- `vsnprintf` parses a directive and then pads the text of its specifier. -/
lemma vsFrom_directive (d : Directive) (rest : List UInt8) :
    ∃ left zero width, ∀ (n : ℕ) (args : List Arg),
      vsFrom (n + 1) (ch '%' :: (d.options ++ d.tail) ++ rest) args =
        if 2 ^ 31 ≤ width then none
        else (vsSpec d.spec.char d.isLong args).bind fun p =>
          emit (padded (cstr p.1) width zero left) (vsFrom n rest p.2) := by
  obtain ⟨zero₀, h₀⟩ := parseFlags_zeros d.zeros false
  obtain ⟨left, zero₁, h₁⟩ := parseFlags_minuses d.minuses false zero₀
  obtain ⟨zero, w, hw, h₂⟩ := parseFlags_width d.width_digits
    (fun c hc => (head?_tail d rest c hc).1) left zero₁
  obtain ⟨width, h₃⟩ := parseWidth_digits hw (fun c hc => (head?_tail d rest c hc).2) 0
  refine ⟨left, zero, width, fun n args => ?_⟩
  have hflags : parseFlags (d.options ++ (d.tail ++ rest)) false false =
      (left, zero, w ++ (d.tail ++ rest)) := by
    rw [Directive.options, List.append_assoc, List.append_assoc, h₀, h₁, h₂]
  rw [List.cons_append, List.append_assoc, vsFrom, if_neg (not_not.mpr rfl), hflags]
  simp only [h₃, parseLength_tail]

/-- A plain directive is neither padded nor long without reason. -/
lemma vsFrom_plain {d : Directive} (hd : d.options = []) (n : ℕ) (rest : List UInt8)
    (args : List Arg) :
    vsFrom (n + 1) (ch '%' :: (d.options ++ d.tail) ++ rest) args =
      (vsSpec d.spec.char d.isLong args).bind fun p => emit (cstr p.1) (vsFrom n rest p.2) := by
  have hflags : parseFlags (d.tail ++ rest) false false = (false, false, d.tail ++ rest) := by
    have hhead := head?_tail d rest
    cases h : d.tail ++ rest with
    | nil => rfl
    | cons c t =>
      rw [h] at hhead
      obtain ⟨⟨h₁, h₂⟩, -⟩ := hhead c rfl
      simp [parseFlags, h₁, h₂]
  have hwidth : parseWidth (d.tail ++ rest) 0 = (0, d.tail ++ rest) := by
    have hhead := head?_tail d rest
    cases h : d.tail ++ rest with
    | nil => rfl
    | cons c t =>
      rw [h] at hhead
      exact if_neg (hhead c rfl).2
  rw [hd, List.nil_append, List.cons_append, vsFrom, if_neg (not_not.mpr rfl), hflags]
  simp only [hwidth, parseLength_tail]
  rw [if_neg (by decide)]
  simp [padded]

/-- A number is read with the width that the directive asks for. -/
lemma vaNumber_takes {isLong : Bool} {a : Arg} (h : (∃ v, a = .word64 v ∧ isLong = true) ∨
    ∃ v, a = .word32 v ∧ isLong = false) (ext : UInt32 → Int64) (rest : List Arg) :
    ∃ v, vaNumber isLong ext (a :: rest) = some (v, rest) := by
  rcases h with ⟨v, rfl, rfl⟩ | ⟨v, rfl, rfl⟩
  · exact ⟨_, rfl⟩
  · exact ⟨_, rfl⟩

lemma percent_not_mem_upper (v : Int64) (base : ℤ) :
    ch '%' ∉ (cstr (itoa v base)).map toupper :=
  not_mem_map_toupper (fun _ => toupper_eq (Or.inl (by decide)))
    (not_mem_cstr (percent_not_mem_itoa v base))

/-- A number directive takes a number of its width. -/
lemma Directive.Takes.number {d : Directive} {a : Arg} (ha : d.Takes a)
    (h : d.spec = .d ∨ d.spec = .u ∨ d.spec = .x ∨ d.spec = .X ∨ d.spec = .o) :
    (∃ v, a = .word64 v ∧ d.isLong = true) ∨ ∃ v, a = .word32 v ∧ d.isLong = false := by
  unfold Directive.Takes at ha
  rcases h with h | h | h | h | h <;> rw [h] at ha <;> cases a <;> simp at ha
  all_goals first
    | exact Or.inl ⟨_, rfl, ha⟩
    | exact Or.inr ⟨_, rfl, ha⟩

/-- A specifier of `vsnprintf` takes the argument that is meant for it, and makes no percent sign of
it unless there is one in it. -/
lemma vsSpec_takes {d : Directive} {a : Arg} (rest : List Arg) (hne : d.spec ≠ .percent)
    (ha : d.Takes a) : ∃ out, vsSpec d.spec.char d.isLong (a :: rest) = some (out, rest) ∧
      (a.NoPercent → ch '%' ∉ out) := by
  cases hspec : d.spec with
  | d =>
    obtain ⟨v, hv⟩ := vaNumber_takes (ha.number (by simp [hspec])) sext rest
    exact ⟨_, congrArg (Option.map _) hv, fun _ => percent_not_mem_itoa _ _⟩
  | u =>
    obtain ⟨v, hv⟩ := vaNumber_takes (ha.number (by simp [hspec])) zext rest
    exact ⟨_, congrArg (Option.map _) hv, fun _ => percent_not_mem_itoa _ _⟩
  | x =>
    obtain ⟨v, hv⟩ := vaNumber_takes (ha.number (by simp [hspec])) zext rest
    exact ⟨_, congrArg (Option.map _) hv, fun _ => percent_not_mem_itoa _ _⟩
  | X =>
    obtain ⟨v, hv⟩ := vaNumber_takes (ha.number (by simp [hspec])) zext rest
    exact ⟨_, congrArg (Option.map _) hv, fun _ => percent_not_mem_upper _ _⟩
  | o =>
    obtain ⟨v, hv⟩ := vaNumber_takes (ha.number (by simp [hspec])) zext rest
    exact ⟨_, congrArg (Option.map _) hv, fun _ => percent_not_mem_itoa _ _⟩
  | c =>
    unfold Directive.Takes at ha
    rw [hspec] at ha
    cases a <;> simp at ha
    exact ⟨_, rfl, fun hno hmem => hno (List.mem_singleton.mp hmem).symm⟩
  | s =>
    unfold Directive.Takes at ha
    rw [hspec] at ha
    rcases a with _ | _ | _ | ⟨addr, _ | str⟩ <;> simp at ha
    have hspec' : vsSpec Spec.s.char d.isLong (.ptr addr (some str) :: rest) =
        if addr = 0 then some (['(', 'n', 'u', 'l', 'l', ')'].map ch, rest)
        else some (str.bytes, rest) := rfl
    exact ⟨str.bytes, by rw [hspec', if_neg ha], fun hno => hno⟩
  | f =>
    unfold Directive.Takes at ha
    rw [hspec] at ha
    cases a <;> simp at ha
    exact ⟨_, rfl, fun _ => percent_not_mem_ftoa _⟩
  | p =>
    unfold Directive.Takes at ha
    rw [hspec] at ha
    cases a <;> simp at ha
    refine ⟨_, rfl, fun _ hmem => ?_⟩
    rcases List.mem_append.mp hmem with hmem | hmem
    · exact absurd hmem (by decide)
    · exact percent_not_mem_itoa _ _ hmem
  | percent => exact absurd hspec hne

lemma percents_padded {v : List UInt8} (hv : ch '%' ∉ v) (width : ℕ) (zero left : Bool) :
    percents (padded v width zero left) = 0 := by
  have hpad : ∀ (k : ℕ) (c : UInt8), c ≠ ch '%' → ch '%' ∉ List.replicate k c :=
    fun k c hc hmem => hc (List.eq_of_mem_replicate hmem).symm
  refine percents_of_not_mem ?_
  unfold padded
  split_ifs <;> rw [List.mem_append, not_or]
  · exact ⟨hv, hpad _ _ (by decide)⟩
  · exact ⟨hpad _ _ (by decide), hv⟩
  · exact ⟨hpad _ _ (by decide), hv⟩

lemma percents_padded_percent (width : ℕ) (zero left : Bool) :
    percents (padded [ch '%'] width zero left) = 1 := by
  have hpad : ∀ (k : ℕ) (c : UInt8), c ≠ ch '%' → percents (List.replicate k c) = 0 :=
    fun k c hc => percents_of_not_mem fun hmem => hc (List.eq_of_mem_replicate hmem).symm
  have hone : percents [ch '%'] = 1 := by decide
  unfold padded
  split_ifs <;> rw [percents_append, hone, hpad _ _ (by decide)]

/-- The percent signs of a directive. -/
lemma percents_directive (d : Directive) :
    percents (ch '%' :: (d.options ++ d.tail)) = if d.spec = .percent then 2 else 1 := by
  have hopt : ch '%' ∉ d.options := by
    simp only [Directive.options, List.mem_append, List.mem_replicate, not_or]
    refine ⟨fun h => absurd h.2 (by decide), fun h => absurd h.2 (by decide), fun h => ?_⟩
    exact absurd (d.width_digits _ h) (by decide)
  have htail : percents d.tail = if d.spec = .percent then 1 else 0 := by
    unfold Directive.tail
    split_ifs with hl hs hs
    · rw [hs]; decide
    · rw [percents_append, percents_of_not_mem (by decide), percents_of_not_mem]
      cases h : d.spec <;> simp_all <;> decide
    · rw [hs]; decide
    · rw [percents_append, percents_of_not_mem (by decide), percents_of_not_mem]
      cases h : d.spec <;> simp_all <;> decide
  rw [percents_cons, if_pos rfl, percents_append, percents_of_not_mem hopt, htail]
  split_ifs <;> rfl

/-- Each percent sign of a format makes `vsnprintf` take an argument, and two of them make it emit
one. -/
lemma percents_vsFrom (fmt : List Item) (args : List Arg) (hm : Matches fmt args)
    (hargs : ∀ a ∈ args, a.NoPercent) (n : ℕ) (p : List UInt8 × List Arg)
    (h : vsFrom n (text fmt) args = some p) :
    p.2 = [] ∧ 2 * percents p.1 + args.length = percents (text fmt) := by
  induction fmt generalizing args n p with
  | nil =>
    obtain rfl : args = [] := hm
    have hnil : vsFrom n [] [] = some ([], []) := by cases n <;> rfl
    obtain rfl := Option.some.inj (hnil.symm.trans h)
    exact ⟨rfl, rfl⟩
  | cons i fmt ih =>
    rw [text, List.flatMap_cons] at h ⊢
    cases n with
    | zero => cases i <;> cases h
    | succ n =>
      cases i with
      | lit c hc =>
        rw [Item.text, List.singleton_append, vsFrom, if_pos hc.1] at h
        obtain ⟨q, hq, rfl⟩ := emit_eq_some h
        obtain ⟨h₁, h₂⟩ := ih args hm hargs n q hq
        refine ⟨h₁, ?_⟩
        have hone : percents [c] = 0 := percents_of_not_mem (by simpa using hc.1.symm)
        rw [Item.text, percents_append, percents_append, hone, ← text, ← h₂]
        omega
      | directive d =>
        obtain ⟨left, zero, width, hvs⟩ := vsFrom_directive d (fmt.flatMap Item.text)
        rw [Item.text, hvs] at h
        split_ifs at h
        obtain ⟨q, hq, hemit⟩ := Option.bind_eq_some_iff.mp h
        obtain ⟨r, hr, rfl⟩ := emit_eq_some hemit
        have htext : percents ((Item.directive d).text ++ fmt.flatMap Item.text) =
            (if d.spec = .percent then 2 else 1) + percents (text fmt) := by
          rw [percents_append, Item.text, percents_directive, text]
        rw [htext]
        unfold Matches at hm
        by_cases hspec : d.spec = .percent
        · rw [if_pos hspec] at hm
          have hone : vsSpec d.spec.char d.isLong args = some ([ch '%'], args) := by
            rw [hspec]
            rfl
          obtain rfl := Option.some.inj (hone.symm.trans hq)
          obtain ⟨h₁, h₂⟩ := ih args hm hargs n r hr
          refine ⟨h₁, ?_⟩
          rw [if_pos hspec, percents_append, show cstr [ch '%'] = [ch '%'] by decide,
            percents_padded_percent, ← h₂]
          omega
        · rw [if_neg hspec] at hm
          obtain ⟨a, rest, rfl, ha, hrest⟩ := hm
          obtain ⟨out, hone, hno⟩ := vsSpec_takes rest hspec ha
          obtain rfl := Option.some.inj (hone.symm.trans hq)
          obtain ⟨h₁, h₂⟩ := ih rest hrest (fun b hb => hargs b (List.mem_cons_of_mem _ hb)) n r hr
          refine ⟨h₁, ?_⟩
          rw [if_neg hspec, percents_append,
            percents_padded (not_mem_cstr (hno (hargs a List.mem_cons_self))), ← h₂,
            List.length_cons]
          omega

/-! ## Formats that printf skips a part of -/

/-- Plain pieces are not skipped. -/
lemma skipped_plain {i : Item} (hi : i.Plain) (rest : List UInt8) :
    skipped (i.text ++ rest) = skipped rest := by
  cases i with
  | lit c hc => exact skipped_lit hc.1 rest
  | directive d =>
    obtain ⟨hopt, hlong⟩ := hi
    rw [Item.text, hopt, List.nil_append, Directive.tail]
    cases hl : d.isLong with
    | true =>
      have hk : knownLong d.spec.char = true := by
        rcases hlong hl with h | h | h | h <;> rw [h] <;> decide
      simp only [if_true, List.cons_append, List.nil_append]
      rw [skipped_long, if_pos hk, Nat.zero_add]
    | false =>
      have hk : knownSpec d.spec.char = true := by cases d.spec <;> decide
      simp only [Bool.false_eq_true, if_false, List.cons_append, List.nil_append]
      rw [skipped_spec (char_ne_l _), if_pos hk, Nat.zero_add]

/-- A directive that is not plain is skipped. -/
lemma skipped_of_not_plain {i : Item} (hi : ¬i.Plain) (rest : List UInt8) :
    0 < skipped (i.text ++ rest) := by
  cases i with
  | lit c hc => exact absurd trivial hi
  | directive d =>
    rw [Item.text]
    cases hopt : d.options with
    | nil =>
      have hlong : d.isLong = true ∧ knownLong d.spec.char = false := by
        by_contra hcon
        refine hi ⟨hopt, fun hl => ?_⟩
        have hk : knownLong d.spec.char = true := by
          by_contra hk
          exact hcon ⟨hl, by simpa using hk⟩
        revert hk
        cases d.spec <;> decide
      rw [List.nil_append, Directive.tail, if_pos hlong.1]
      simp only [List.cons_append, List.nil_append]
      rw [skipped_long, if_neg (by simp [hlong.2])]
      omega
    | cons c t =>
      have hc : c ≠ ch 'l' ∧ knownSpec c = false := by
        have hmem : c ∈ d.options := hopt ▸ List.mem_cons_self
        simp only [Directive.options, List.mem_append, List.mem_replicate] at hmem
        rcases hmem with ⟨-, rfl⟩ | ⟨-, rfl⟩ | hw
        · decide
        · decide
        · obtain ⟨h₁, h₂⟩ := d.width_digits c hw
          have hall : ∀ i : Fin 256, ch '0' ≤ UInt8.ofFin i → UInt8.ofFin i ≤ ch '9' →
              UInt8.ofFin i ≠ ch 'l' ∧ knownSpec (UInt8.ofFin i) = false := by decide +kernel
          exact hall c.toFin h₁ h₂
      rw [List.cons_append, List.cons_append, List.cons_append, skipped_spec hc.1,
        if_neg (by simp [hc.2])]
      omega

/-- A format that is not plain has a directive that is skipped. -/
lemma skipped_text {fmt : List Item} (h : ¬Plain fmt) : 0 < skipped (text fmt) := by
  induction fmt with
  | nil => exact absurd (fun i hi => absurd hi List.not_mem_nil) h
  | cons i fmt ih =>
    rw [text, List.flatMap_cons]
    by_cases hi : i.Plain
    · rw [skipped_plain hi]
      refine ih fun hp => h ?_
      exact List.forall_mem_cons.mpr ⟨hi, hp⟩
    · exact skipped_of_not_plain hi _

/-! ## Plain formats -/

lemma printFrom_lit {c : UInt8} (h : c ≠ ch '%') (rest : List UInt8) (args : List Arg) :
    printFrom (c :: rest) args = emit [c] (printFrom rest args) := by
  rw [printFrom.eq_def]
  exact if_pos h

lemma printFrom_long (d : UInt8) (rest : List UInt8) (args : List Arg) :
    printFrom (ch '%' :: ch 'l' :: d :: rest) args =
      (printLong d args).bind fun p => emit p.1 (printFrom rest p.2) := by
  rw [printFrom.eq_def]
  simp

lemma printFrom_spec {d : UInt8} (h : d ≠ ch 'l') (rest : List UInt8) (args : List Arg) :
    printFrom (ch '%' :: d :: rest) args =
      (printSpec d args).bind fun p => emit p.1 (printFrom rest p.2) := by
  rw [printFrom.eq_def]
  simp [h]

lemma emit_some (out : List UInt8) (p : List UInt8 × List Arg) :
    emit out (some p) = some (out ++ p.1, p.2) := rfl

/-- Capital letters are no characters with code 0. -/
lemma cstr_upper (l : List UInt8) : cstr ((cstr l).map toupper) = (cstr l).map toupper :=
  cstr_of_nonzero
    (not_mem_map_toupper (fun _ => toupper_eq (Or.inl (by decide))) (zero_not_mem_cstr l))

/-- After an `l` both interpreters print the same number. -/
lemma printLong_plain {d : Directive} {a : Arg} (hl : d.isLong = true)
    (hspec : d.spec = .d ∨ d.spec = .u ∨ d.spec = .x ∨ d.spec = .o) (ha : d.Takes a)
    (rest : List Arg) : ∃ out, printLong d.spec.char (a :: rest) = some (cstr out, rest) ∧
      vsSpec d.spec.char d.isLong (a :: rest) = some (out, rest) := by
  have hnumber : (∃ v, a = .word64 v ∧ d.isLong = true) ∨ ∃ v, a = .word32 v ∧ d.isLong = false :=
    ha.number (by tauto)
  rcases hnumber with ⟨v, rfl, -⟩ | ⟨v, -, hl'⟩
  · rw [hl]
    rcases hspec with h | h | h | h <;> rw [h] <;> exact ⟨_, rfl, rfl⟩
  · exact absurd (hl.symm.trans hl') (by decide)

/-- Without flags, width and length modifier both interpreters print the same, except that
`vsnprintf` ends the text of `%c` before a character with code 0. -/
lemma printSpec_plain {d : Directive} {a : Arg} (hl : d.isLong = false) (hne : d.spec ≠ .percent)
    (ha : d.Takes a) (rest : List Arg) :
    ∃ out out', printSpec d.spec.char (a :: rest) = some (out', rest) ∧
      vsSpec d.spec.char d.isLong (a :: rest) = some (out, rest) ∧
      out'.length = (cstr out).length + d.nul (a :: rest) ∧
      (d.nul (a :: rest) = 0 → out' = cstr out) := by
  unfold Directive.Takes at ha
  unfold Directive.nul
  rw [hl] at ha ⊢
  cases hspec : d.spec with
  | percent => exact absurd hspec hne
  | d =>
    rw [hspec] at ha
    cases a <;> simp at ha
    exact ⟨_, _, rfl, rfl, rfl, fun _ => rfl⟩
  | u =>
    rw [hspec] at ha
    cases a <;> simp at ha
    exact ⟨_, _, rfl, rfl, rfl, fun _ => rfl⟩
  | x =>
    rw [hspec] at ha
    cases a <;> simp at ha
    exact ⟨_, _, rfl, rfl, rfl, fun _ => rfl⟩
  | X =>
    rw [hspec] at ha
    cases a with
    | word32 v =>
      have hout : (cstr (itoa (zext v) 16)).map toupper =
          cstr ((cstr (itoa (zext v) 16)).map toupper) := (cstr_upper _).symm
      exact ⟨_, _, rfl, rfl, congrArg List.length hout, fun _ => hout⟩
    | word64 _ => simp at ha
    | double _ => simp at ha
    | ptr _ _ => simp at ha
  | o =>
    rw [hspec] at ha
    cases a <;> simp at ha
    exact ⟨_, _, rfl, rfl, rfl, fun _ => rfl⟩
  | f =>
    rw [hspec] at ha
    cases a <;> simp at ha
    exact ⟨_, _, rfl, rfl, rfl, fun _ => rfl⟩
  | p =>
    rw [hspec] at ha
    cases a <;> simp at ha
    exact ⟨_, _, rfl, rfl, rfl, fun _ => rfl⟩
  | c =>
    rw [hspec] at ha
    cases a with
    | word32 v =>
      refine ⟨[v.toUInt8], [v.toUInt8], rfl, rfl, ?_, ?_⟩
      · by_cases h0 : v.toUInt8 = 0 <;> simp [h0, cstr]
      · by_cases h0 : v.toUInt8 = 0 <;> simp [h0, cstr]
    | word64 _ => simp at ha
    | double _ => simp at ha
    | ptr _ _ => simp at ha
  | s =>
    rw [hspec] at ha
    rcases a with _ | _ | _ | ⟨addr, _ | str⟩ <;> simp at ha
    have hspec' : vsSpec Spec.s.char false (.ptr addr (some str) :: rest) =
        if addr = 0 then some (['(', 'n', 'u', 'l', 'l', ')'].map ch, rest)
        else some (str.bytes, rest) := rfl
    have hout : str.bytes = cstr str.bytes := (cstr_of_nonzero str.nonzero).symm
    exact ⟨str.bytes, str.bytes, rfl, by rw [hspec', if_neg ha], congrArg List.length hout,
      fun _ => hout⟩

/-- On a plain format both interpreters take the arguments that it wants, and what `printf` prints
is longer by the characters with code 0. -/
lemma plain_from (fmt : List Item) (args : List Arg) (hp : Plain fmt) (hm : Matches fmt args)
    (n : ℕ) (hn : (text fmt).length ≤ n) :
    ∃ out out', printFrom (text fmt) args = some (out', []) ∧
      vsFrom n (text fmt) args = some (out, []) ∧ out'.length = out.length + nuls fmt args ∧
      (nuls fmt args = 0 → out' = out) := by
  induction fmt generalizing args n with
  | nil =>
    obtain rfl : args = [] := hm
    refine ⟨[], [], rfl, ?_, rfl, fun _ => rfl⟩
    cases n <;> rfl
  | cons i fmt ih =>
    have hrest : Plain fmt := fun j hj => hp j (List.mem_cons_of_mem _ hj)
    rw [text, List.flatMap_cons, ← text] at hn ⊢
    cases n with
    | zero => cases i <;> simp [Item.text] at hn
    | succ n =>
      have hlen : (text fmt).length ≤ n := by
        have hpos : 0 < i.text.length := by cases i <;> simp [Item.text]
        rw [List.length_append] at hn
        omega
      cases i with
      | lit c hc =>
        obtain ⟨out, out', h₁, h₂, h₃, h₄⟩ := ih args hrest hm n hlen
        refine ⟨c :: out, c :: out', ?_, ?_, ?_, fun h0 => congrArg (c :: ·) (h₄ h0)⟩
        · rw [Item.text, List.singleton_append, printFrom_lit hc.1, h₁]
          rfl
        · rw [Item.text, List.singleton_append, vsFrom, if_pos hc.1, h₂]
          rfl
        · rw [List.length_cons, h₃, List.length_cons, nuls]
          omega
      | directive d =>
        obtain ⟨hopt, hlong⟩ := hp _ List.mem_cons_self
        rw [Item.text, vsFrom_plain hopt, nuls]
        unfold Matches at hm
        by_cases hspec : d.spec = .percent
        · rw [if_pos hspec] at hm
          rw [if_pos hspec]
          have hl : d.isLong = false := by
            by_contra hl
            have := hlong (by simpa using hl)
            simp [hspec] at this
          have hnul : d.nul args = 0 := by
            unfold Directive.nul
            rw [hspec]
          obtain ⟨out, out', h₁, h₂, h₃, h₄⟩ := ih args hrest hm n hlen
          refine ⟨ch '%' :: out, ch '%' :: out', ?_, ?_, ?_, fun h0 => ?_⟩
          · rw [hopt, List.nil_append, Directive.tail, hl, hspec]
            change printFrom (ch '%' :: ch '%' :: text fmt) args = _
            rw [printFrom_spec (by decide)]
            change emit [ch '%'] (printFrom (text fmt) args) = _
            rw [h₁]
            rfl
          · rw [hspec]
            change emit (cstr [ch '%']) (vsFrom n (text fmt) args) = _
            rw [h₂]
            rfl
          · rw [List.length_cons, h₃, List.length_cons, hnul]
            omega
          · rw [h₄ (by omega)]
        · rw [if_neg hspec] at hm
          obtain ⟨a, rest, rfl, ha, hrest'⟩ := hm
          rw [if_neg hspec, List.tail_cons]
          obtain ⟨out, out', h₁, h₂, h₃, h₄⟩ := ih rest hrest hrest' n hlen
          cases hl : d.isLong with
          | true =>
            obtain ⟨v, hv₁, hv₂⟩ := printLong_plain hl (hlong hl) ha rest
            have hnul : d.nul (a :: rest) = 0 := by
              unfold Directive.nul
              rcases hlong hl with h | h | h | h <;> rw [h]
            refine ⟨cstr v ++ out, cstr v ++ out', ?_, ?_, ?_, fun h0 => ?_⟩
            · rw [hopt, List.nil_append, Directive.tail, hl]
              change printFrom (ch '%' :: ch 'l' :: d.spec.char :: text fmt) (a :: rest) = _
              rw [printFrom_long, hv₁]
              change emit (cstr v) (printFrom (text fmt) rest) = _
              rw [h₁, emit_some]
            · rw [← hl, hv₂]
              change emit (cstr v) (vsFrom n (text fmt) rest) = _
              rw [h₂, emit_some]
            · rw [List.length_append, h₃, List.length_append, hnul]
              omega
            · rw [h₄ (by omega)]
          | false =>
            obtain ⟨v, v', hv₁, hv₂, hv₃, hv₄⟩ := printSpec_plain hl hspec ha rest
            refine ⟨cstr v ++ out, v' ++ out', ?_, ?_, ?_, fun h0 => ?_⟩
            · rw [hopt, List.nil_append, Directive.tail, hl]
              change printFrom (ch '%' :: d.spec.char :: text fmt) (a :: rest) = _
              rw [printFrom_spec (char_ne_l _), hv₁]
              change emit v' (printFrom (text fmt) rest) = _
              rw [h₁, emit_some]
            · rw [← hl, hv₂]
              change emit (cstr v) (vsFrom n (text fmt) rest) = _
              rw [h₂, emit_some]
            · rw [List.length_append, h₃, hv₃, List.length_append]
              omega
            · rw [hv₄ (by omega), h₄ (by omega)]

/-! ## Agreement -/

/-- What agreement says about the loops. -/
lemma Agree.from {fmt : List UInt8} {args : List Arg} (h : Agree fmt args) :
    ∃ out rest, printFrom fmt args = some (out, rest) ∧
      vsFrom fmt.length fmt args = some (out, rest) := by
  obtain ⟨out, rest, hprint, -, hvs⟩ := h
  refine ⟨out, rest, hprint, ?_⟩
  obtain ⟨p, hp, heq⟩ := Option.map_eq_some_iff.mp (hvs (out.length + 1) (Nat.lt_succ_self _))
  simp only [Nat.succ_ne_zero, if_false, Nat.add_sub_cancel, Prod.mk.injEq] at heq
  obtain ⟨hstored, hlen, hrest⟩ := heq
  rw [← hlen, List.take_length] at hstored
  rw [hp, ← List.append_cancel_right hstored, ← hrest]

/-- Loops that agree make the three functions agree. -/
lemma agree_of_from {fmt : List UInt8} {args rest : List Arg} {out : List UInt8}
    (hprint : printFrom fmt args = some (out, rest))
    (hvs : vsFrom fmt.length fmt args = some (out, rest)) : Agree fmt args := by
  refine ⟨out, rest, hprint, ?_, fun n hn => ?_⟩
  · rw [sprintf, hprint]
    rfl
  · have hlen : out.length ≤ n - 1 := by omega
    rw [vsnprintf, hvs, Option.map_some, if_neg (by omega), List.take_of_length_le hlen]

/-- **printf, sprintf and vsnprintf.**  On a format of the language and arguments that it wants, the
three functions agree if and only if no directive has flags or a width, an `l` stands only before
`d`, `u`, `x` and `o`, and no character with code 0 is printed with `%c`. -/
theorem agree_iff (fmt : List Item) (args : List Arg) (hm : Matches fmt args)
    (hargs : Plain fmt ∨ ∀ a ∈ args, a.NoPercent) :
    Agree (text fmt) args ↔ Plain fmt ∧ nuls fmt args = 0 := by
  constructor
  · intro h
    obtain ⟨out, rest, hprint, hvs⟩ := h.from
    have hplain : Plain fmt := by
      by_contra hnot
      have hno := hargs.resolve_left hnot
      obtain ⟨hrest, hcount⟩ := percents_vsFrom fmt args hm hno _ _ hvs
      have hle := percents_printFrom (text fmt) args hno _ hprint
      have hpos := skipped_text hnot
      have hrest' : rest.length = 0 := congrArg List.length hrest
      dsimp only at hcount hle
      omega
    obtain ⟨out₁, out₂, h₁, h₂, h₃, -⟩ := plain_from fmt args hplain hm _ le_rfl
    have heq₁ : out = out₂ := congrArg Prod.fst (Option.some.inj (hprint.symm.trans h₁))
    have heq₂ : out = out₁ := congrArg Prod.fst (Option.some.inj (hvs.symm.trans h₂))
    refine ⟨hplain, ?_⟩
    rw [← heq₁, ← heq₂] at h₃
    omega
  · rintro ⟨hplain, h0⟩
    obtain ⟨out₁, out₂, h₁, h₂, -, h₄⟩ := plain_from fmt args hplain hm _ le_rfl
    rw [h₄ h0] at h₁
    exact agree_of_from h₁ h₂

/-- A directive `%d` with the options `width`. -/
def decimal (width : List UInt8) (h : ∀ c ∈ width, ch '0' ≤ c ∧ c ≤ ch '9') : Item :=
  .directive
    { zeros := 0, minuses := 0, width := width, isLong := false, spec := .d, width_digits := h }

/-- `agree_iff` for the format `n=%d`. -/
theorem agree_decimal :
    Agree (text [.lit (ch 'n') (by decide), .lit (ch '=') (by decide), decimal [] (by simp)])
      [.word32 7] := by
  refine (agree_iff _ _ ?_ (Or.inr ?_)).mpr ⟨?_, rfl⟩
  · exact ⟨_, _, rfl, rfl, rfl⟩
  · intro a ha
    obtain rfl := List.mem_singleton.mp ha
    exact (by decide : (7 : UInt32).toUInt8 ≠ ch '%')
  · intro i hi
    simp only [List.mem_cons, List.not_mem_nil, or_false] at hi
    rcases hi with rfl | rfl | rfl
    · trivial
    · trivial
    · exact ⟨rfl, fun h => absurd h (by decide)⟩

/-- Not every format means the same to the three functions: of `%3d`, `printf` prints the `d`. -/
theorem not_agree_width :
    ¬∀ (fmt : List Item) (args : List Arg), Matches fmt args → Agree (text fmt) args := by
  intro h
  have hm : Matches [decimal [ch '3'] (List.forall_mem_singleton.mpr (by decide))] [.word32 7] :=
    ⟨_, _, rfl, rfl, rfl⟩
  obtain ⟨out, rest, hprint, hvs⟩ := (h _ _ hm).from
  have h₁ : rest = [.word32 7] := congrArg Prod.snd (Option.some.inj hprint).symm
  have h₂ : rest = [] := congrArg Prod.snd (Option.some.inj hvs).symm
  exact absurd (h₁.symm.trans h₂) (List.cons_ne_nil _ _)

/-- A string with a percent sign in it can make up for what `printf` skips. -/
example : Agree (text
    [.directive ⟨1, 0, [], false, .percent, by simp⟩, .lit (ch 's') (by decide),
      .directive ⟨0, 0, [], true, .p, by simp⟩])
    [.ptr 1 (some ⟨['%', 's', '0', 'x', '1'].map ch, by decide, by decide⟩)] :=
  agree_of_from rfl rfl

end Stdio

end CoolFrost

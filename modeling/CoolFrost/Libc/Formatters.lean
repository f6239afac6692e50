import CoolFrost.Libc.Stdio

/-!
# Where the formatters stop

The interpreters of `libc/stdio.c` once more, now with what they do to memory.  The pointer into the
format is the part of the format from it on, so an empty list points to the terminator, and a run
that moves the pointer on from there goes on to read behind the terminator: it ends with the fault
`format`.  A run that takes an argument of another type than it has ends with the fault `argument`.

`vsnprintf` writes with the macro `_EC` alone.  Memory is a function of the distance from `s`, so a
write outside of the buffer would show.
-/

namespace CoolFrost

namespace Formatter

open Stdio

/-- How a run leaves the language. -/
inductive Fault where
  | format
  | argument
  deriving DecidableEq, Repr

/-- Take an argument. -/
def argument {α : Type} : Option α → Except Fault α
  | some a => .ok a
  | none => .error .argument

/-! ## printf and sprintf -/

/-- Put characters in front of the output of the rest. -/
def after (out : List UInt8) (r : Except Fault (List UInt8 × List Arg)) :
    Except Fault (List UInt8 × List Arg) :=
  r.map fun p => (out ++ p.1, p.2)

/-- The loop that `printf` and `sprintf` share: the characters that it puts out. -/
def printLoop : List UInt8 → List Arg → Except Fault (List UInt8 × List Arg)
  | [], args => .ok ([], args)
  | c :: rest, args =>
    if c ≠ ch '%' then after [c] (printLoop rest args)
    else
      match rest with
      -- no specifier is the terminator, but the pointer moves on
      | [] => .error .format
      | d :: rest =>
        if d = ch 'l' then
          match rest with
          | [] => .error .format
          | d :: rest =>
            (argument (printLong d args)).bind fun p => after p.1 (printLoop rest p.2)
        else (argument (printSpec d args)).bind fun p => after p.1 (printLoop rest p.2)

/-- `printf`: the characters handed to `kprint_char`. -/
def printf (format : List UInt8) (args : List Arg) : Except Fault (List UInt8) :=
  (printLoop format args).map Prod.fst

/-- Store characters one after the other. -/
def store (mem : ℕ → UInt8) (at_ : ℕ) : List UInt8 → ℕ → UInt8
  | [] => mem
  | c :: out => store (Function.update mem at_ c) (at_ + 1) out

/-- `sprintf`: the memory afterwards and the value returned. -/
def sprintf (s : ℕ → UInt8) (format : List UInt8) (args : List Arg) :
    Except Fault ((ℕ → UInt8) × Int32) :=
  (printLoop format args).map fun p => (store s 0 (p.1 ++ [0]), Int32.ofNat p.1.length)

/-! ## vsnprintf -/

/-- The memory that `vsnprintf` writes to and its count of the characters. -/
structure Sink where
  mem : ℕ → UInt8
  total : UInt64

/-- `_EC`. -/
def Sink.put (n : UInt64) (c : UInt8) (s : Sink) : Sink where
  mem := if 1 < n ∧ s.total < n - 1 then Function.update s.mem s.total.toNat c else s.mem
  total := s.total + 1

/-- `_EC` of one character after the other. -/
def Sink.puts (n : UInt64) (out : List UInt8) (s : Sink) : Sink :=
  out.foldl (fun s c => s.put n c) s

/-- What stands between a percent sign and the specifier. -/
structure Options where
  left : Bool
  zero : Bool
  width : ℕ
  isLong : Bool
  deriving DecidableEq, Repr

/-- Parse flags, width and length modifier. -/
def parseOptions (fmt : List UInt8) : Options × List UInt8 :=
  let (left, zero, rest) := parseFlags fmt false false
  let (width, rest) := parseWidth rest 0
  let (isLong, rest) := parseLength rest
  (⟨left, zero, width, isLong⟩, rest)

/-- `_EMIT_PADDED`.  The width is an `int`, and so is the length it is compared with. -/
def Sink.emitPadded (n : UInt64) (v : List UInt8) (o : Options) (s : Sink) : Sink :=
  let width := Int32.ofNat o.width
  let vl := Int32.ofNat v.length
  let s := if !o.left ∧ vl < width then
      (Sink.put n (if o.zero then ch '0' else ch ' '))^[(width - vl).toInt.toNat] s
    else s
  let s := s.puts n v
  if o.left ∧ vl < width then (Sink.put n (ch ' '))^[(width - vl).toInt.toNat] s else s

lemma parseFlags_length (fmt : List UInt8) (left zero : Bool) :
    (parseFlags fmt left zero).2.2.length ≤ fmt.length := by
  fun_induction parseFlags fmt left zero with
  | case1 => exact le_refl _
  | case2 _ _ _ ih => exact ih.trans (Nat.le_succ _)
  | case3 _ _ _ _ _ _ ih => exact ih.trans (Nat.le_succ _)
  | case4 => exact le_refl _

lemma parseWidth_length (fmt : List UInt8) (width : ℕ) :
    (parseWidth fmt width).2.length ≤ fmt.length := by
  fun_induction parseWidth fmt width with
  | case1 => exact le_refl _
  | case2 _ _ _ _ ih => exact ih.trans (Nat.le_succ _)
  | case3 => exact le_refl _

lemma parseLength_length (fmt : List UInt8) : (parseLength fmt).2.length ≤ fmt.length := by
  fun_cases parseLength fmt with
  | case1 => exact le_refl _
  | case2 => exact Nat.le_succ _
  | case3 => exact le_refl _

/-- The parser of the options does not move back. -/
lemma parseOptions_length (fmt : List UInt8) : (parseOptions fmt).2.length ≤ fmt.length :=
  calc (parseOptions fmt).2.length
      ≤ (parseWidth (parseFlags fmt false false).2.2 0).2.length := parseLength_length _
    _ ≤ (parseFlags fmt false false).2.2.length := parseWidth_length _ _
    _ ≤ fmt.length := parseFlags_length _ _ _

/-- The loop of `vsnprintf`. -/
def vsLoop (n : UInt64) (fmt : List UInt8) (args : List Arg) (s : Sink) : Except Fault Sink :=
  match fmt with
  | [] => .ok s
  | c :: rest =>
    if c ≠ ch '%' then vsLoop n rest args (s.put n c)
    else
      match _h : parseOptions rest with
      -- the terminator passes for an unknown specifier, and the pointer moves on
      | (_, []) => .error .format
      | (o, d :: rest') =>
        match vsSpec d o.isLong args with
        | none => .error .argument
        | some (v, args) => vsLoop n rest' args (s.emitPadded n (cstr v) o)
termination_by fmt.length
decreasing_by
  · exact Nat.lt_succ_self _
  · have hlen := parseOptions_length rest
    rw [_h] at hlen
    exact Nat.lt_succ_of_lt hlen

/-- `vsnprintf`: the memory from `s` on afterwards and the value returned. -/
def vsnprintf (s : ℕ → UInt8) (n : UInt64) (fmt : List UInt8) (args : List Arg) :
    Except Fault ((ℕ → UInt8) × Int32) :=
  (vsLoop n fmt args ⟨s, 0⟩).map fun r =>
    (if 0 < n then Function.update r.mem (if r.total < n then r.total else n - 1).toNat 0
      else r.mem, r.total.toUInt32.toInt32)

/-! ## What a format asks for -/

/-- A directive as an interpreter reads it; there is no specifier where the terminator cuts it
short. -/
structure Token where
  options : Options
  spec : Option UInt8
  deriving DecidableEq, Repr

/-- The directives that `printf` and `sprintf` read. -/
def printTokens : List UInt8 → List Token
  | [] => []
  | c :: rest =>
    if c ≠ ch '%' then printTokens rest
    else
      match rest with
      | [] => [⟨⟨false, false, 0, false⟩, none⟩]
      | d :: rest =>
        if d = ch 'l' then
          match rest with
          | [] => [⟨⟨false, false, 0, true⟩, none⟩]
          | d :: rest => ⟨⟨false, false, 0, true⟩, some d⟩ :: printTokens rest
        else ⟨⟨false, false, 0, false⟩, some d⟩ :: printTokens rest

/-- The directives that `vsnprintf` reads. -/
def vsTokens (fmt : List UInt8) : List Token :=
  match fmt with
  | [] => []
  | c :: rest =>
    if c ≠ ch '%' then vsTokens rest
    else
      match _h : parseOptions rest with
      | (o, []) => [⟨o, none⟩]
      | (o, d :: rest') => ⟨o, some d⟩ :: vsTokens rest'
termination_by fmt.length
decreasing_by
  · exact Nat.lt_succ_self _
  · have hlen := parseOptions_length rest
    rw [_h] at hlen
    exact Nat.lt_succ_of_lt hlen

/-- The terminator cuts no directive short. -/
def Complete (tokens : List Token) : Prop := ∀ t ∈ tokens, t.spec ≠ none

/-- Every width fits into an `int`. -/
def Narrow (tokens : List Token) : Prop := ∀ t ∈ tokens, t.options.width < 2 ^ 31

/-- What an interpreter wants from an argument. -/
inductive Want where
  | word32
  | word64
  | double
  | ptr
  | str
  | strOrNull
  deriving DecidableEq, Repr

/-- The argument is what is wanted. -/
def Want.Fits : Want → Arg → Prop
  | .word32, .word32 _ => True
  | .word64, .word64 _ => True
  | .double, .double _ => True
  | .ptr, .ptr _ _ => True
  | .str, .ptr _ text => text ≠ none
  | .strOrNull, .ptr addr text => addr = 0 ∨ text ≠ none
  | _, _ => False

/-- The arguments begin with those that are wanted. -/
def Enough : List Want → List Arg → Prop
  | [], _ => True
  | _ :: _, [] => False
  | w :: wants, a :: args => w.Fits a ∧ Enough wants args

/-- What `printf` wants for the specifier `c`. -/
def specWant (c : UInt8) : List Want :=
  if c = ch 'd' then [.word32]
  else if c = ch 'u' then [.word32]
  else if c = ch 'x' then [.word32]
  else if c = ch 'X' then [.word32]
  else if c = ch 'o' then [.word32]
  else if c = ch 'f' then [.double]
  else if c = ch 'p' then [.ptr]
  else if c = ch 'c' then [.word32]
  else if c = ch 's' then [.str]
  else []

/-- What `printf` wants for the specifier `c` after an `l`. -/
def longWant (c : UInt8) : List Want :=
  if c = ch 'd' then [.word64]
  else if c = ch 'u' then [.word64]
  else if c = ch 'x' then [.word64]
  else if c = ch 'o' then [.word64]
  else []

/-- What `vsnprintf` wants for the specifier `c`. -/
def vsSpecWant (c : UInt8) (isLong : Bool) : List Want :=
  let number := if isLong then Want.word64 else Want.word32
  if c = ch 'd' then [number]
  else if c = ch 'u' then [number]
  else if c = ch 'x' then [number]
  else if c = ch 'X' then [number]
  else if c = ch 'o' then [number]
  else if c = ch 'f' then [.double]
  else if c = ch 'p' then [.ptr]
  else if c = ch 'c' then [.word32]
  else if c = ch 's' then [.strOrNull]
  else []

/-- What `printf` and `sprintf` want for a directive. -/
def printWant (t : Token) : List Want :=
  match t.spec with
  | none => []
  | some c => if t.options.isLong then longWant c else specWant c

/-- What `vsnprintf` wants for a directive. -/
def vsWant (t : Token) : List Want :=
  match t.spec with
  | none => []
  | some c => vsSpecWant c t.options.isLong

/-- What `printf` and `sprintf` want for a format. -/
def printWants (fmt : List UInt8) : List Want := (printTokens fmt).flatMap printWant

/-- What `vsnprintf` wants for a format. -/
def vsWants (fmt : List UInt8) : List Want := (vsTokens fmt).flatMap vsWant

/-! ## Arguments -/

section Arguments

variable {α β : Type} {ws : List Want} {args : List Arg}

/-- The argument is there, and after it there are enough for the rest. -/
def Finds (ws : List Want) (r : Option (α × List Arg)) : Prop :=
  ∃ a left, r = some (a, left) ∧ Enough ws left

lemma Finds.map {r : Option (α × List Arg)} (h : Finds ws r) (f : α × List Arg → β) :
    Finds ws (r.map fun p => (f p, p.2)) := by
  obtain ⟨a, left, rfl, hleft⟩ := h
  exact ⟨f (a, left), left, rfl, hleft⟩

/-- What a specifier wants and what it takes depend on the same comparison. -/
lemma Finds.ite {p : Prop} [Decidable p] {w₁ w₂ : List Want} {r₁ r₂ : Option (α × List Arg)}
    (h₁ : Enough (w₁ ++ ws) args → Finds ws r₁) (h₂ : Enough (w₂ ++ ws) args → Finds ws r₂)
    (h : Enough ((if p then w₁ else w₂) ++ ws) args) : Finds ws (if p then r₁ else r₂) := by
  split_ifs at h ⊢
  · exact h₁ h
  · exact h₂ h

lemma finds_va32 (h : Enough (.word32 :: ws) args) : Finds ws (va32 args) := by
  rcases args with _ | ⟨_ | _ | _ | _, left⟩
  case nil => exact h.elim
  case cons.word32 v => exact ⟨v, left, rfl, h.2⟩
  all_goals exact h.1.elim

lemma finds_va64 (h : Enough (.word64 :: ws) args) : Finds ws (va64 args) := by
  rcases args with _ | ⟨_ | _ | _ | _, left⟩
  case nil => exact h.elim
  case cons.word64 v => exact ⟨v, left, rfl, h.2⟩
  all_goals exact h.1.elim

lemma finds_vaDouble (h : Enough (.double :: ws) args) : Finds ws (vaDouble args) := by
  rcases args with _ | ⟨_ | _ | _ | _, left⟩
  case nil => exact h.elim
  case cons.double v => exact ⟨v, left, rfl, h.2⟩
  all_goals exact h.1.elim

lemma finds_vaPtr (h : Enough (.ptr :: ws) args) : Finds ws (vaPtr args) := by
  rcases args with _ | ⟨_ | _ | _ | ⟨addr, text⟩, left⟩
  case nil => exact h.elim
  case cons.ptr => exact ⟨(addr, text), left, rfl, h.2⟩
  all_goals exact h.1.elim

lemma finds_vaNumber {isLong : Bool} (ext : UInt32 → Int64)
    (h : Enough ((if isLong then Want.word64 else Want.word32) :: ws) args) :
    Finds ws (vaNumber isLong ext args) := by
  cases isLong with
  | false => exact (finds_va32 h).map _
  | true => exact (finds_va64 h).map _

/-- With enough arguments every specifier of `printf` finds its own. -/
lemma printSpec_finds {c : UInt8} (h : Enough (specWant c ++ ws) args) :
    Finds ws (printSpec c args) := by
  revert h
  apply Finds.ite (fun h => (finds_va32 h).map _)
  apply Finds.ite (fun h => (finds_va32 h).map _)
  apply Finds.ite (fun h => (finds_va32 h).map _)
  apply Finds.ite (fun h => (finds_va32 h).map _)
  apply Finds.ite (fun h => (finds_va32 h).map _)
  apply Finds.ite (fun h => (finds_vaDouble h).map _)
  apply Finds.ite (fun h => (finds_vaPtr h).map _)
  apply Finds.ite (fun h => (finds_va32 h).map _)
  apply Finds.ite
  · intro h
    rcases args with _ | ⟨_ | _ | _ | ⟨addr, text⟩, left⟩
    case nil => exact h.elim
    case cons.ptr =>
      obtain ⟨s, rfl⟩ := Option.ne_none_iff_exists'.mp (show text ≠ none from h.1)
      exact ⟨s.bytes, left, rfl, h.2⟩
    all_goals exact h.1.elim
  · intro h
    split_ifs
    · exact ⟨_, args, rfl, h⟩
    · exact ⟨_, args, rfl, h⟩

/-- With enough arguments every specifier of `printf` after an `l` finds its own. -/
lemma printLong_finds {c : UInt8} (h : Enough (longWant c ++ ws) args) :
    Finds ws (printLong c args) := by
  revert h
  apply Finds.ite (fun h => (finds_va64 h).map _)
  apply Finds.ite (fun h => (finds_va64 h).map _)
  apply Finds.ite (fun h => (finds_va64 h).map _)
  apply Finds.ite (fun h => (finds_va64 h).map _)
  exact fun h => ⟨_, args, rfl, h⟩

/-- With enough arguments every specifier of `vsnprintf` finds its own. -/
lemma vsSpec_finds {c : UInt8} {isLong : Bool} (h : Enough (vsSpecWant c isLong ++ ws) args) :
    Finds ws (vsSpec c isLong args) := by
  revert h
  apply Finds.ite (fun h => (finds_vaNumber _ h).map _)
  apply Finds.ite (fun h => (finds_vaNumber _ h).map _)
  apply Finds.ite (fun h => (finds_vaNumber _ h).map _)
  apply Finds.ite (fun h => (finds_vaNumber _ h).map _)
  apply Finds.ite (fun h => (finds_vaNumber _ h).map _)
  apply Finds.ite (fun h => (finds_vaDouble h).map _)
  apply Finds.ite (fun h => (finds_vaPtr h).map _)
  apply Finds.ite (fun h => (finds_va32 h).map _)
  apply Finds.ite
  · intro h
    rcases args with _ | ⟨_ | _ | _ | ⟨addr, text⟩, left⟩
    case nil => exact h.elim
    case cons.ptr =>
      rcases eq_or_ne addr 0 with rfl | haddr
      · exact ⟨_, left, rfl, h.2⟩
      · have htext : text ≠ none := h.1.resolve_left haddr
        obtain ⟨s, rfl⟩ := Option.ne_none_iff_exists'.mp htext
        exact ⟨s.bytes, left, if_neg haddr, h.2⟩
    all_goals exact h.1.elim
  · intro h
    split_ifs
    · exact ⟨_, args, rfl, h⟩
    · exact ⟨_, args, rfl, h⟩

end Arguments

/-! ## Where the loops stop -/

/-- The run ends, and it does not leave the language on its way. -/
def Ends {α : Type} (r : Except Fault α) : Prop := ∃ a, r = .ok a

lemma ends_map {α β : Type} {r : Except Fault α} (f : α → β) : Ends (r.map f) ↔ Ends r := by
  cases r with
  | error e => exact iff_of_false (fun ⟨_, h⟩ => nomatch h) fun ⟨_, h⟩ => nomatch h
  | ok a => exact iff_of_true ⟨f a, rfl⟩ ⟨a, rfl⟩

lemma not_ends_error {α : Type} (e : Fault) : ¬Ends (.error e : Except Fault α) :=
  fun ⟨_, h⟩ => nomatch h

lemma complete_cons {o : Options} {d : UInt8} {tokens : List Token} :
    Complete (⟨o, some d⟩ :: tokens) ↔ Complete tokens := by
  simp [Complete]

lemma not_complete_cut (o : Options) : ¬Complete [⟨o, none⟩] :=
  fun h => h _ List.mem_cons_self rfl

/-- A round of `printf` that finds its argument ends if the rest does. -/
lemma ends_after {r : Option (List UInt8 × List Arg)} {ws : List Want} {rest : List UInt8}
    {P : Prop} (h : Finds ws r)
    (ih : ∀ args, Enough ws args → (Ends (printLoop rest args) ↔ P)) :
    Ends ((argument r).bind fun p => after p.1 (printLoop rest p.2)) ↔ P := by
  obtain ⟨out, left, rfl, hleft⟩ := h
  exact (ends_map _).trans (ih left hleft)

/-- With enough arguments `printf` stops if and only if the terminator cuts no directive short. -/
theorem printLoop_ends_iff (fmt : List UInt8) (args : List Arg) (h : Enough (printWants fmt) args) :
    Ends (printLoop fmt args) ↔ Complete (printTokens fmt) := by
  unfold printWants at h
  fun_induction printTokens fmt generalizing args with
  | case1 => exact ⟨fun _ _ hmem => absurd hmem List.not_mem_nil, fun _ => ⟨_, rfl⟩⟩
  | case2 c rest hc ih =>
    rw [printLoop.eq_def]
    simp only [if_pos hc]
    exact (ends_map _).trans (ih args h)
  | case3 c hc =>
    rw [printLoop.eq_def]
    simp only [if_neg hc]
    exact iff_of_false (not_ends_error _) (not_complete_cut _)
  | case4 c hc =>
    rw [printLoop.eq_def]
    simp only [if_neg hc, if_pos]
    exact iff_of_false (not_ends_error _) (not_complete_cut _)
  | case5 c hc d rest ih =>
    rw [printLoop.eq_def, complete_cons]
    simp only [if_neg hc, if_pos]
    exact ends_after (printLong_finds h) ih
  | case6 c hc d rest hd ih =>
    rw [printLoop.eq_def, complete_cons]
    simp only [if_neg hc, if_neg hd]
    exact ends_after (printSpec_finds h) ih

/-! A round of `vsnprintf` at a directive, and what the round reads. -/

section Rounds

variable {rest rest' : List UInt8} {o : Options} {d : UInt8}

lemma vsTokens_cut (h : parseOptions rest = (o, [])) : vsTokens (ch '%' :: rest) = [⟨o, none⟩] := by
  rw [vsTokens, if_neg (not_not.mpr rfl)]
  split
  · next heq => simpa using heq.symm.trans h
  · next heq => exact absurd (h.symm.trans heq) (by simp)

lemma vsTokens_directive (h : parseOptions rest = (o, d :: rest')) :
    vsTokens (ch '%' :: rest) = ⟨o, some d⟩ :: vsTokens rest' := by
  rw [vsTokens, if_neg (not_not.mpr rfl)]
  split
  · next heq => exact absurd (h.symm.trans heq) (by simp)
  · next heq =>
    obtain ⟨rfl, rfl, rfl⟩ : o = _ ∧ d = _ ∧ rest' = _ := by simpa using h.symm.trans heq
    rfl

lemma vsLoop_cut (h : parseOptions rest = (o, [])) (n : UInt64) (args : List Arg) (s : Sink) :
    vsLoop n (ch '%' :: rest) args s = .error .format := by
  rw [vsLoop, if_neg (not_not.mpr rfl)]
  split
  · rfl
  · next heq => exact absurd (h.symm.trans heq) (by simp)

lemma vsLoop_directive (h : parseOptions rest = (o, d :: rest')) {args left : List Arg}
    {v : List UInt8} (hspec : vsSpec d o.isLong args = some (v, left)) (n : UInt64) (s : Sink) :
    vsLoop n (ch '%' :: rest) args s = vsLoop n rest' left (s.emitPadded n (cstr v) o) := by
  rw [vsLoop, if_neg (not_not.mpr rfl)]
  split
  · next heq => exact absurd (h.symm.trans heq) (by simp)
  · next heq =>
    obtain ⟨rfl, rfl, rfl⟩ : o = _ ∧ d = _ ∧ rest' = _ := by simpa using h.symm.trans heq
    rw [hspec]

end Rounds

/-- With enough arguments `vsnprintf` stops if and only if the terminator cuts no directive
short. -/
theorem vsLoop_ends_iff (n : UInt64) (fmt : List UInt8) (args : List Arg) (s : Sink)
    (h : Enough (vsWants fmt) args) : Ends (vsLoop n fmt args s) ↔ Complete (vsTokens fmt) := by
  unfold vsWants at h
  fun_induction vsTokens fmt generalizing args s with
  | case1 =>
    rw [vsLoop]
    exact ⟨fun _ _ hmem => absurd hmem List.not_mem_nil, fun _ => ⟨_, rfl⟩⟩
  | case2 c rest hc ih =>
    rw [vsLoop, if_pos hc]
    exact ih args _ h
  | case3 c rest hc o hparse =>
    obtain rfl := not_not.mp hc
    rw [vsLoop_cut hparse]
    exact iff_of_false (not_ends_error _) (not_complete_cut _)
  | case4 c rest hc o d rest' hparse ih =>
    obtain rfl := not_not.mp hc
    obtain ⟨v, left, hspec, hleft⟩ := vsSpec_finds h
    rw [vsLoop_directive hparse hspec, complete_cons]
    exact ih left _ hleft

/-- The three interpreters read nothing behind the terminator if and only if it cuts no directive of
theirs short: none that `printf` and `sprintf` read after the percent sign or after an `l`, none
that `vsnprintf` reads anywhere up to the specifier. -/
theorem stops_iff (fmt : List UInt8) (args : List Arg) :
    (Enough (printWants fmt) args →
      (Ends (printf fmt args) ↔ Complete (printTokens fmt)) ∧
      ∀ s, Ends (sprintf s fmt args) ↔ Complete (printTokens fmt)) ∧
    (Enough (vsWants fmt) args →
      ∀ s n, Ends (vsnprintf s n fmt args) ↔ Complete (vsTokens fmt)) :=
  ⟨fun h => ⟨(ends_map _).trans (printLoop_ends_iff fmt args h),
    fun _ => (ends_map _).trans (printLoop_ends_iff fmt args h)⟩,
    fun h _ n => (ends_map _).trans (vsLoop_ends_iff n fmt args _ h)⟩

/-- All three print a number in its own width. -/
theorem stops_decimal :
    Ends (printf [ch '%', ch 'd'] [.word32 7]) ∧
      Ends (sprintf (fun _ => 0) [ch '%', ch 'd'] [.word32 7]) ∧
      Ends (vsnprintf (fun _ => 0) 8 [ch '%', ch 'd'] [.word32 7]) := by
  have hprint : printTokens [ch '%', ch 'd'] = [⟨⟨false, false, 0, false⟩, some (ch 'd')⟩] := rfl
  have hparse : parseOptions [ch 'd'] = (⟨false, false, 0, false⟩, [ch 'd']) := rfl
  have hvs : vsTokens [ch '%', ch 'd'] = [⟨⟨false, false, 0, false⟩, some (ch 'd')⟩] := by
    rw [vsTokens_directive hparse, vsTokens]
  have hcomplete : Complete [⟨⟨false, false, 0, false⟩, some (ch 'd')⟩] :=
    complete_cons.mpr fun _ hmem => absurd hmem List.not_mem_nil
  obtain ⟨h₁, h₂⟩ := stops_iff [ch '%', ch 'd'] [.word32 7]
  obtain ⟨hprintf, hsprintf⟩ := h₁ ⟨trivial, trivial⟩
  have hvsnprintf := h₂ (by rw [vsWants, hvs]; exact ⟨trivial, trivial⟩)
  rw [hprint] at hprintf hsprintf
  rw [hvs] at hvsnprintf
  exact ⟨hprintf.mpr hcomplete, (hsprintf _).mpr hcomplete, (hvsnprintf _ _).mpr hcomplete⟩

/-- None of them stops at the end of a lone percent sign, which asks for no argument. -/
theorem not_stops :
    ¬∀ (fmt : List UInt8) (args : List Arg),
      (Enough (printWants fmt) args →
        Ends (printf fmt args) ∧ ∀ s, Ends (sprintf s fmt args)) ∧
      (Enough (vsWants fmt) args → ∀ s n, Ends (vsnprintf s n fmt args)) := by
  intro h
  obtain ⟨h₁, -⟩ := h [ch '%'] []
  exact not_ends_error Fault.format (h₁ trivial).1

end Formatter

end CoolFrost

import CoolFrost.Kernel.ElfImage

/-!
# The arguments of a program

The page with the arguments as the process sees it: the count, the pointers and the texts that they
point to.  The texts lie one after the other behind the header, as many as fit, and their addresses
are the process's own.
-/

namespace CoolFrost

namespace Elf

open Bytes Vmm

/-- The room that texts take with their terminators. -/
def textSize (args : List (List UInt8)) : ℕ := (args.map fun arg => arg.length + 1).sum

/-- The room for the texts. -/
def strRoom : ℕ := pageSize - procArgsSize

/-- What a process that looks at its memory with `look` finds in the page of the arguments, where
`args` are those it is meant to get: `argc` of them, at the addresses `argv`. -/
structure Received (look : ℕ → Option UInt8) (args : List (List UInt8)) (page : Bytes) (argc : ℕ)
    (argv : ℕ → ℕ) : Prop where
  /-- The page is mapped. -/
  mapped : ∀ k < pageSize, look (argvVa + k) = some (page k)
  /-- The count is that of the longest prefix that fits. -/
  count : le64 page 0 = argc
  longest : IsGreatest {c | c ≤ args.length ∧ textSize (args.take c) ≤ strRoom} argc
  /-- The pointers lead into the page, behind the header. -/
  pointer : ∀ k < argc, le64 page (8 * (1 + k)) = argv k
  inside : ∀ k < argc,
    argvVa + procArgsSize ≤ argv k ∧ argv k + (args.getD k []).length + 1 ≤ argvVa + pageSize
  /-- They lead to the texts, each of them with its terminator. -/
  text : ∀ k < argc, ∀ j < (args.getD k []).length,
    look (argv k + j) = some ((args.getD k []).getD j 0)
  terminator : ∀ k < argc, look (argv k + (args.getD k []).length) = some 0
  /-- No text meets another. -/
  apart : ∀ k l, k < l → l < argc → argv k + (args.getD k []).length + 1 ≤ argv l
  /-- The other pointers are null. -/
  null : ∀ k, argc ≤ k → k < maxArgs → le64 page (8 * (1 + k)) = 0

/-! ## Sizes -/

@[simp] lemma textSize_nil : textSize [] = 0 := rfl

@[simp] lemma textSize_cons (arg : List UInt8) (args : List (List UInt8)) :
    textSize (arg :: args) = arg.length + 1 + textSize args := List.sum_cons

/-- The next text takes its own room. -/
lemma textSize_take_succ {args : List (List UInt8)} {k : ℕ} (hk : k < args.length) :
    textSize (args.take (k + 1)) = textSize (args.take k) + ((args.getD k []).length + 1) := by
  induction args generalizing k with
  | nil => exact absurd hk (Nat.not_lt_zero k)
  | cons arg args ih =>
    cases k with
    | zero => simp
    | succ k =>
      have hk' : k < args.length := Nat.lt_of_succ_lt_succ hk
      rw [List.take_succ_cons, List.take_succ_cons, textSize_cons, textSize_cons, ih hk']
      simp only [List.getD_cons_succ]
      omega

lemma textSize_take_mono (args : List (List UInt8)) {k l : ℕ} (h : k ≤ l) :
    textSize (args.take k) ≤ textSize (args.take l) := by
  induction args generalizing k l with
  | nil => simp
  | cons arg args ih =>
    cases k with
    | zero => simp
    | succ k =>
      obtain ⟨l, rfl⟩ : ∃ l', l = l' + 1 := ⟨l - 1, by omega⟩
      have hrest := ih (Nat.le_of_succ_le_succ h)
      rw [List.take_succ_cons, List.take_succ_cons, textSize_cons, textSize_cons]
      omega

/-! ## The page -/

/-- What stands in the page `mem` after `n` of the texts have been copied, the first of them as the
`copied`-th argument to `strOff`. -/
structure Copied (args : List (List UInt8)) (copied strOff : ℕ) (mem mem' : Bytes)
    (n : ℕ) : Prop where
  le : n ≤ args.length
  fits : strOff + textSize (args.take n) ≤ strRoom
  longest : n < args.length → strRoom < strOff + textSize (args.take (n + 1))
  pointer : ∀ k < n, le64 mem' (8 * (1 + (copied + k))) =
    argvVa + procArgsSize + (strOff + textSize (args.take k))
  text : ∀ k < n, ∀ j ≤ (args.getD k []).length,
    mem' (procArgsSize + (strOff + textSize (args.take k)) + j) = (args.getD k []).getD j 0
  -- what was there before stays: the pointers and the texts of the arguments before these
  frame : ∀ x, x < 8 * (1 + copied) ∨ procArgsSize ≤ x ∧ x < procArgsSize + strOff → mem' x = mem x

/-- The loop over the arguments copies as many as fit. -/
lemma copyArgs_spec {pa : ℕ} (args : List (List UInt8)) {copied strOff : ℕ} {mem : Bytes}
    (hcopied : copied + args.length ≤ maxArgs) (hoff : strOff ≤ strRoom) :
    ∃ n, (copyArgs pa args copied strOff mem).1 = copied + n ∧
      Copied args copied strOff (shift mem pa)
      (shift (copyArgs pa args copied strOff mem).2 pa) n := by
  induction args generalizing copied strOff mem with
  | nil =>
    refine ⟨0, rfl, le_rfl, by simpa using hoff, fun h => absurd h (lt_irrefl 0), ?_, ?_, ?_⟩
    · exact fun k hk => absurd hk (Nat.not_lt_zero k)
    · exact fun k hk => absurd hk (Nat.not_lt_zero k)
    · exact fun x _ => rfl
  | cons arg args ih =>
    rw [List.length_cons] at hcopied
    unfold copyArgs
    by_cases hfull : pageSize - procArgsSize < strOff + arg.length + 1
    · rw [if_pos hfull]
      refine ⟨0, rfl, Nat.zero_le _, by simpa using hoff, fun _ => ?_, ?_, ?_, fun x _ => rfl⟩
      · rw [List.take_succ_cons, List.take_zero, textSize_cons, textSize_nil]
        exact hfull
      · exact fun k hk => absurd hk (Nat.not_lt_zero k)
      · exact fun k hk => absurd hk (Nat.not_lt_zero k)
    rw [if_neg hfull]
    dsimp only
    set mem₁ := blit mem (pa + procArgsSize + strOff) (ofList arg) (arg.length + 1) with hmem₁
    set mem₂ := putWord mem₁ pa (1 + copied) (argvVa + procArgsSize + strOff) with hmem₂
    have hheader : 8 * (1 + copied) + 8 ≤ procArgsSize := by
      unfold procArgsSize
      omega
    have hroom : strOff + arg.length + 1 ≤ strRoom := Nat.le_of_not_lt hfull
    have hptr : argvVa + procArgsSize + strOff < 2 ^ 64 := by
      have hva : argvVa + procArgsSize + strRoom < 2 ^ 64 := by decide
      omega
    obtain ⟨n, hn, h⟩ := @ih (copied + 1) (strOff + arg.length + 1) mem₂ (by omega) hroom
    -- what the first text is written over
    have hbytes : ∀ x, mem₂ (pa + x) =
        if 8 * (1 + copied) ≤ x ∧ x < 8 * (1 + copied) + 8 then
          ofNat (argvVa + procArgsSize + strOff) (x - 8 * (1 + copied))
        else if procArgsSize + strOff ≤ x ∧ x < procArgsSize + strOff + (arg.length + 1) then
          ofList arg (x - (procArgsSize + strOff))
        else mem (pa + x) := by
      intro x
      rw [hmem₂, putWord, put64]
      split_ifs with hptr htext
      · rw [blit_of_mem (by omega)]
        congr 1
        omega
      · rw [blit_of_not_mem (by omega), hmem₁, blit_of_mem (by omega)]
        congr 1
        omega
      · rw [blit_of_not_mem (by omega), hmem₁, blit_of_not_mem (by omega)]
    have hword : le64 (shift mem₂ pa) (8 * (1 + copied)) = argvVa + procArgsSize + strOff :=
      word_putWord_self mem₁ pa (1 + copied) hptr
    refine ⟨n + 1, by rw [hn]; omega, Nat.succ_le_succ h.le, ?_, fun hlt => ?_, fun k hk => ?_,
      fun k hk j hj => ?_, fun x hx => ?_⟩
    · have hfits := h.fits
      rw [List.take_succ_cons, textSize_cons]
      omega
    · have hlong := h.longest (Nat.lt_of_succ_lt_succ hlt)
      rw [List.take_succ_cons, textSize_cons]
      omega
    · cases k with
      | zero =>
        simp only [List.take_zero, textSize_nil, Nat.add_zero]
        rw [← hword]
        exact le64_congr fun i hi => h.frame _ (Or.inl (by omega))
      | succ k =>
        have hp := h.pointer k (Nat.lt_of_succ_lt_succ hk)
        rw [List.take_succ_cons, textSize_cons, show copied + (k + 1) = copied + 1 + k by omega, hp]
        omega
    · cases k with
      | zero =>
        simp only [List.getD_cons_zero] at hj ⊢
        rw [List.take_zero, textSize_nil, Nat.add_zero, h.frame _ (Or.inr (by omega))]
        change mem₂ (pa + (procArgsSize + strOff + j)) = _
        rw [hbytes, if_neg (by omega), if_pos (by omega), Nat.add_sub_cancel_left]
        rfl
      | succ k =>
        simp only [List.getD_cons_succ] at hj ⊢
        have ht := h.text k (Nat.lt_of_succ_lt_succ hk) j hj
        rw [List.take_succ_cons, textSize_cons, ← ht]
        congr 1
        omega
    · rw [h.frame x (by omega)]
      change mem₂ (pa + x) = mem (pa + x)
      rw [hbytes, if_neg (by omega), if_neg (by omega)]

/-- The page after the count and the null pointers have been stored. -/
lemma fillArgv_spec (pa : ℕ) (args : List (List UInt8)) (mem : Bytes) :
    ∃ n, Copied (args.take maxArgs) 0 0 (shift mem pa)
        (shift (copyArgs pa (args.take maxArgs) 0 0 mem).2 pa) n ∧
      le64 (shift (fillArgv pa args mem) pa) 0 = n ∧
      (∀ k, n ≤ k → k < maxArgs → le64 (shift (fillArgv pa args mem) pa) (8 * (1 + k)) = 0) ∧
      ∀ x, 8 ≤ x → x < 8 * (1 + n) ∨ procArgsSize ≤ x →
        shift (fillArgv pa args mem) pa x =
        shift (copyArgs pa (args.take maxArgs) 0 0 mem).2 pa x := by
  have hlen : (args.take maxArgs).length ≤ maxArgs := by
    rw [List.length_take]
    exact min_le_left _ _
  obtain ⟨n, hn, h⟩ := @copyArgs_spec pa (args.take maxArgs) 0 0 mem (by omega) (Nat.zero_le _)
  rw [Nat.zero_add] at hn
  have hle : n ≤ maxArgs := h.le.trans hlen
  -- clearing pointers one after the other
  have hclear : ∀ (m c : ℕ) (b : Bytes), c + m = maxArgs →
      (∀ k, c ≤ k → k < maxArgs →
        word ((List.range' c m).foldl (fun mem k => putWord mem pa (1 + k) 0) b) pa (1 + k) = 0) ∧
      ∀ x, x < 8 * (1 + c) ∨ procArgsSize ≤ x →
        (List.range' c m).foldl (fun mem k => putWord mem pa (1 + k) 0) b (pa + x) =
        b (pa + x) := by
    intro m
    induction m with
    | zero => exact fun c b hc => ⟨fun k hk hk' => by omega, fun x _ => rfl⟩
    | succ m ih =>
      intro c b hc
      obtain ⟨hzero, hframe⟩ := ih (c + 1) (putWord b pa (1 + c) 0) (by omega)
      rw [List.range'_succ, List.foldl_cons]
      have hhead : 8 * (1 + c) + 8 ≤ procArgsSize := by
        unfold procArgsSize
        omega
      refine ⟨fun k hk hk' => ?_, fun x hx => ?_⟩
      · rcases Nat.eq_or_lt_of_le hk with rfl | hlt
        · refine Eq.trans ?_ (word_putWord_self b pa (1 + c) (v := 0) (by decide))
          refine le64_congr fun i hi => ?_
          rw [Nat.add_assoc]
          exact hframe _ (Or.inl (by omega))
        · exact hzero k hlt hk'
      · rw [hframe x (by omega)]
        exact blit_of_not_mem (by omega)
  obtain ⟨hzero, hframe⟩ := hclear (maxArgs - n) n
    (putWord (copyArgs pa (args.take maxArgs) 0 0 mem).2 pa 0 n) (by omega)
  have hfill : fillArgv pa args mem = (List.range' n (maxArgs - n)).foldl
      (fun mem k => putWord mem pa (1 + k) 0)
      (putWord (copyArgs pa (args.take maxArgs) 0 0 mem).2 pa 0 n) := by
    rw [fillArgv, ← hn]
  refine ⟨n, h, ?_, fun k hk hk' => ?_, fun x hx hx' => ?_⟩
  · have hlt : n < 2 ^ 64 := lt_of_le_of_lt hle (by decide)
    rw [hfill]
    refine Eq.trans (le64_congr fun i hi => ?_)
      (word_putWord_self (copyArgs pa (args.take maxArgs) 0 0 mem).2 pa 0 hlt)
    exact (hframe _ (Or.inl (by omega))).trans (congrArg _ (by omega))
  · rw [hfill]
    exact hzero k hk hk'
  · rw [hfill]
    refine (hframe x hx').trans ?_
    exact blit_of_not_mem (by omega)

/-- A process whose page of arguments is the one that `elf_exec` fills has received them. -/
lemma received_fillArgv {look : ℕ → Option UInt8} {pa : ℕ} {args : List (List UInt8)} {mem : Bytes}
    (hlook : ∀ k < pageSize, look (argvVa + k) = some (fillArgv pa args mem (pa + k))) :
    ∃ argc argv, Received look (args.take maxArgs) (shift (fillArgv pa args mem) pa) argc argv := by
  obtain ⟨n, h, hcount, hnull, hsame⟩ := fillArgv_spec pa args mem
  set texts := args.take maxArgs with htexts
  have hlen : texts.length ≤ maxArgs := by
    rw [htexts, List.length_take]
    exact min_le_left _ _
  have hle : n ≤ maxArgs := h.le.trans hlen
  have hfits := h.fits
  rw [Nat.zero_add] at hfits
  have hheader : 8 * (1 + maxArgs) = procArgsSize := by decide
  have hroom : procArgsSize + strRoom = pageSize := by decide
  -- a text ends where the next one starts, and the last one inside of the page
  have hend : ∀ k < n, textSize (texts.take k) + ((texts.getD k []).length + 1) =
      textSize (texts.take (k + 1)) := fun k hk => (textSize_take_succ (hk.trans_le h.le)).symm
  have hlast : ∀ k < n, textSize (texts.take (k + 1)) ≤ strRoom := fun k hk =>
    (textSize_take_mono texts hk).trans hfits
  have hbyte : ∀ k < n, ∀ j ≤ (texts.getD k []).length,
      look (argvVa + procArgsSize + textSize (texts.take k) + j) =
        some ((texts.getD k []).getD j 0) := by
    intro k hk j hj
    have he := hend k hk
    have hl := hlast k hk
    have htext := h.text k hk j hj
    rw [Nat.zero_add, ← hsame _ (by omega) (Or.inr (by omega))] at htext
    rw [← htext, show argvVa + procArgsSize + textSize (texts.take k) + j =
      argvVa + (procArgsSize + textSize (texts.take k) + j) by omega]
    exact hlook _ (by omega)
  refine ⟨n, fun k => argvVa + procArgsSize + textSize (texts.take k), hlook,
    hcount, ⟨⟨h.le, hfits⟩,
    fun c hc => ?_⟩, fun k hk => ?_, fun k hk => ?_, fun k hk j hj => hbyte k hk j hj.le,
    fun k hk => ?_, fun k l hkl hl => ?_, hnull⟩
  · by_contra hlt
    have hlong := h.longest (by have := hc.1; omega)
    have hmono := textSize_take_mono texts (k := n + 1) (l := c) (by omega)
    have hcfits := hc.2
    omega
  · have hp := h.pointer k hk
    rw [Nat.zero_add, Nat.zero_add] at hp
    change _ = argvVa + procArgsSize + textSize (texts.take k)
    rw [← hp]
    exact le64_congr fun i hi => hsame _ (by omega) (Or.inl (by omega))
  · have he := hend k hk
    have hl := hlast k hk
    constructor
    · omega
    · omega
  · rw [hbyte k hk _ le_rfl, List.getD_eq_getElem?_getD, List.getElem?_eq_none le_rfl,
      Option.getD_none]
  · have he := hend k (hkl.trans hl)
    have hmono := textSize_take_mono texts (k := k + 1) (l := l) hkl
    omega

variable {K : Kmalloc} {img : Cpu.Image} {v : Vmm} {s : Cpu.Scheduler}
  {found : Option File} {stack : ℕ}

/-- **A process gets its arguments**: of the first `ELF_MAX_ARGS` as many as fit into one page. -/
theorem elfExec_received (hv : Reached K v) (argc : ℤ) (argv : List (List UInt8)) {slot i : ℕ}
    (h : (elfExec K img found (argv.take argc.toNat) stack v s).1 = some (slot, i)) :
    ∃ page argc' argv', Received
      (byteOf (elfExec K img found (argv.take argc.toNat) stack v s).2.1.mem
        ((elfExec K img found (argv.take argc.toNat) stack v s).2.2.taskPool slot).cr3)
      (argv.take (min (max argc 0) maxArgs).toNat) page argc' argv' := by
  obtain ⟨file, -, -, image, hholds, -, pa, mem, hpage⟩ := (elfExec_spec hv.good).2 h
  have htake : argv.take (min (max argc 0) maxArgs).toNat =
      (argv.take argc.toNat).take maxArgs := by
    rw [List.take_take]
    congr 1
    omega
  rw [htake]
  refine ⟨_, @received_fillArgv _ pa _ mem fun k hk => ?_⟩
  have halign : (argvVa + k) / 4096 * 4096 = argvVa := by
    unfold pageSize at hk
    have hva : argvVa = 0x7FFFA * 4096 := by decide
    omega
  have hmod : (argvVa + k) % 4096 = k := by
    unfold pageSize at hk
    have hva : argvVa = 0x7FFFA * 4096 := by decide
    omega
  have hwalk := hholds.walk (a := argvVa + k) (by rw [halign]; exact hpage) ?_ ?_
  · obtain ⟨frame, hframe, hbyte⟩ := hwalk
    rw [byteOf, hframe, Option.map_some, hbyte, hmod]
  · exact (by decide : userBase ≤ argvVa).trans (Nat.le_add_right _ _)
  · have hva : argvVa + pageSize ≤ userBase + userSize := by decide
    omega

/-- Two arguments on a machine that has just started. -/
theorem elfExec_received_two :
    ∃ page argc' argv', Received
      (byteOf (elfExec bumpKmalloc ⟨1, 2, 3⟩ (some oneSegment) [[97, 98], [99]] 4096
        (boot zeros ∅).vmm
        (Cpu.Scheduler.schedInit (fun _ => 0) 0).schedRun).2.1.mem
        ((elfExec bumpKmalloc ⟨1, 2, 3⟩ (some oneSegment) [[97, 98], [99]] 4096 (boot zeros ∅).vmm
          (Cpu.Scheduler.schedInit (fun _ => 0) 0).schedRun).2.2.taskPool 0).cr3)
      [[97, 98], [99]] page argc' argv' := by
  have haccept : (elfExec bumpKmalloc ⟨1, 2, 3⟩ (some oneSegment)
      (List.take (2 : ℤ).toNat [[97, 98], [99]]) 4096 (boot zeros ∅).vmm
      (Cpu.Scheduler.schedInit (fun _ => 0) 0).schedRun).1 = some (0, 0) := by
    decide +kernel
  exact elfExec_received (.boot zeros ∅) 2 [[97, 98], [99]] haccept

end Elf

end CoolFrost

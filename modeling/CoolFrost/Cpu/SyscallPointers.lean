import CoolFrost.Cpu.Syscall

/-!
# The pointers of system calls

A range that `is_user_range` answers 1 for is all user memory, and a system call reads and writes
user memory only inside ranges that it has got this answer for.
-/

namespace CoolFrost

open Program Vmm Elf Bytes

namespace Syscall

variable {σ : Type} {S : Services σ} {K : Kmalloc} {userStart userEnd : UInt64} {mem : Bytes}
  {cr3 p len q n : ℕ} {log : List PtrEvent} {s : State σ} {r : Regs}

/-! ## Ranges -/

/-- A byte of the arena that all tasks share, or of a page of the window that is mapped for user
code. -/
def UserByte (userStart userEnd : UInt64) (mem : Bytes) (cr3 a : ℕ) : Prop :=
  userStart.toNat ≤ a ∧ a < userEnd.toNat ∨ userBase ≤ a ∧ a < userBase + userSize ∧
    UserMapped mem cr3 a

/-- `in_range` does not wrap around. -/
lemma inRange_iff {start stop : ℕ} : inRange p len start stop = true ↔
    start ≤ p ∧ p < stop ∧ p + len ≤ stop := by
  unfold inRange
  split_ifs with hzero hout hlong
  · rw [Bool.and_eq_true, decide_eq_true_iff, decide_eq_true_iff]
    omega
  · exact iff_of_false id (by omega)
  · exact iff_of_false id (by omega)
  · exact iff_of_true rfl (by omega)

/-- `is_user_range` answers, and with 1 only if all of the range is user memory. -/
lemma isUserRange_spec (userStart userEnd : UInt64) (mem : Bytes) (cr3 p len : ℕ) :
    ∃ b, isUserRange userStart userEnd mem cr3 p len = some b ∧
      (b = true → p + len ≤ 2 ^ 64 ∧
        ∀ a, p ≤ a → a < p + len → UserByte userStart userEnd mem cr3 a) := by
  have hend := userEnd.toNat_lt
  unfold isUserRange
  split_ifs with harena hwindow
  · obtain ⟨hstart, -, hstop⟩ := inRange_iff.mp harena
    exact ⟨true, rfl, fun _ => ⟨by omega, fun a ha ha' => .inl ⟨by omega, by omega⟩⟩⟩
  · obtain ⟨hstart, -, hstop⟩ := inRange_iff.mp hwindow
    have hwrap : p + len < 2 ^ 64 := by
      unfold userBase userSize at hstop
      omega
    classical
    refine ⟨_, vmmRangeMapped_eq mem cr3 hwrap, fun hmapped => ⟨hwrap.le, fun a ha ha' => .inr ?_⟩⟩
    rcases of_decide_eq_true hmapped with hzero | hall
    · omega
    · exact hall a ha ha'
  · exact ⟨false, rfl, fun h => absurd h Bool.false_ne_true⟩

/-! ## What has been checked -/

/-- A range is inside of one that `is_user_range` has answered 1 for. -/
def Covered (userStart userEnd : UInt64) (log : List PtrEvent) (p len : ℕ) : Prop :=
  ∃ mem cr3 q n, .checked mem cr3 q n ∈ log ∧
    isUserRange userStart userEnd mem cr3 q n = some true ∧
    q ≤ p ∧ p + len ≤ q + n

/-- User memory has been read and written only inside of ranges that had been checked. -/
def Guarded (userStart userEnd : UInt64) (log : List PtrEvent) : Prop :=
  ∀ pre p len post, log = pre ++ .access p len :: post → Covered userStart userEnd pre p len

/-- At first nothing has been accessed. -/
lemma guarded_nil : Guarded userStart userEnd [] := by
  rintro (_ | ⟨e, pre⟩) p len post h
  · cases h
  · cases h

/-- An event keeps what has been accessed guarded if it is no access or one to a covered range. -/
lemma guarded_concat {e : PtrEvent} (h : Guarded userStart userEnd log)
    (he : ∀ p len, e = .access p len → Covered userStart userEnd log p len) :
    Guarded userStart userEnd (log ++ [e]) := by
  intro pre p len post heq
  rcases List.eq_nil_or_concat post with rfl | ⟨post', e', rfl⟩
  · obtain ⟨rfl, hsame⟩ := List.append_inj' heq rfl
    exact he p len (List.singleton_inj.mp hsame)
  · rw [List.concat_eq_append, ← List.cons_append, ← List.append_assoc] at heq
    obtain ⟨rfl, -⟩ := List.append_inj' heq rfl
    exact h pre p len post' rfl

/-- A range stays covered. -/
lemma Covered.concat (h : Covered userStart userEnd log p len) (e : PtrEvent) :
    Covered userStart userEnd (log ++ [e]) p len := by
  obtain ⟨mem, cr3, q, n, hmem, hrest⟩ := h
  exact ⟨mem, cr3, q, n, List.mem_append_left _ hmem, hrest⟩

/-- A part of a range that is covered. -/
lemma Covered.mono (h : Covered userStart userEnd log p len) (hq : p ≤ q) (hn : q + n ≤ p + len) :
    Covered userStart userEnd log q n := by
  obtain ⟨mem, cr3, q', n', hmem, htrue, hle, hle'⟩ := h
  exact ⟨mem, cr3, q', n', hmem, htrue, hle.trans hq, hn.trans hle'⟩

lemma Guarded.access (h : Guarded userStart userEnd log)
    (hcov : Covered userStart userEnd log p len) :
    Guarded userStart userEnd (log ++ [.access p len]) := by
  refine guarded_concat h ?_
  rintro q n ⟨⟩
  exact hcov

/-! ## The steps of a system call -/

@[simp] lemma wp_setRax (v : UInt64) (Q : PUnit → State σ → Prop) :
    wp (setRax v) Q s ↔ Q PUnit.unit { s with regs := { s.regs with rax := v } } :=
  wp_modify _ _ _

@[simp] lemma wp_ask {α : Type} (g : σ → α × σ) (Q : α → State σ → Prop) :
    wp (ask g) Q s ↔ Q (g s.kernel).1 { s with kernel := (g s.kernel).2 } :=
  wp_pure _ _ _

@[simp] lemma wp_order (g : σ → σ) (Q : PUnit → State σ → Prop) :
    wp (order g) Q s ↔ Q PUnit.unit { s with kernel := g s.kernel } :=
  wp_modify _ _ _

@[simp] lemma wp_copyOut (data : List UInt8) (Q : PUnit → State σ → Prop) :
    wp (copyOut p len data) Q s ↔ Q PUnit.unit { s with
      vmm := { s.vmm with mem := stored s.vmm.mem s.cr3 p len data }
      log := s.log ++ [.access p len] } :=
  wp_modify _ _ _

/-- User memory has been read. -/
lemma wp_copyIn {Q : List UInt8 → State σ → Prop}
    (h : ∀ data, Q data { s with log := s.log ++ [.access p len] }) : wp (copyIn p len) Q s := by
  rw [copyIn, wp_bind, wp_modify, wp_bind, wp_get, wp_pure]
  exact h _

/-- The text of a system call is in the range that has been checked for it. -/
lemma wp_copyString {Q : List UInt8 → State σ → Prop}
    (h : ∀ data, Q data { s with log := s.log ++ [.access p len] }) :
    wp (copyString p len) Q s := by
  rw [copyString, wp_bind]
  refine wp_copyIn fun data => ?_
  rw [wp_pure]
  exact h _

/-- A system call goes on with a range that is user memory, or fails. -/
lemma wp_withRange {m : Program (State σ) PUnit} (hs : Guarded userStart userEnd s.log)
    (hm : ∀ s' : State σ, Guarded userStart userEnd s'.log →
      Covered userStart userEnd s'.log p len →
      (∀ q n, Covered userStart userEnd s.log q n → Covered userStart userEnd s'.log q n) →
      p + len ≤ 2 ^ 64 → wp m (fun _ s'' => Guarded userStart userEnd s''.log) s') :
    wp (withRange userStart userEnd p len m) (fun _ s' => Guarded userStart userEnd s'.log) s := by
  obtain ⟨b, hb, hspec⟩ := isUserRange_spec userStart userEnd s.vmm.mem s.cr3 p len
  rw [withRange, wp_bind, wp_get, hb]
  cases b with
  | false =>
    rw [fail, wp_setRax]
    exact hs
  | true =>
    rw [wp_bind, wp_modify]
    refine hm _ (guarded_concat hs fun _ _ h => by cases h) ?_
      (fun q n h => h.concat _) (hspec rfl).1
    exact ⟨s.vmm.mem, s.cr3, p, len, List.mem_append_right _ List.mem_cons_self, hb, le_rfl, le_rfl⟩

/-- A loop that accesses parts of a range. -/
lemma wp_forM {m : ℕ → Program (State σ) PUnit} {l : List ℕ}
    (hs : Guarded userStart userEnd s.log) (hcov : Covered userStart userEnd s.log p len)
    (hm : ∀ i ∈ l, ∀ s' : State σ, Guarded userStart userEnd s'.log →
      Covered userStart userEnd s'.log p len →
      wp (m i) (fun _ s'' => Guarded userStart userEnd s''.log ∧
        Covered userStart userEnd s''.log p len) s') :
    wp (forM l m) (fun _ s' => Guarded userStart userEnd s'.log) s := by
  induction l generalizing s with
  | nil =>
    rw [List.forM_nil, wp_pure]
    exact hs
  | cons i l ih =>
    rw [List.forM_cons, wp_bind]
    refine wp_mono (hm i List.mem_cons_self s hs hcov) ?_
    rintro _ s' ⟨hs', hcov'⟩
    exact ih hs' hcov' fun j hj => hm j (List.mem_cons_of_mem i hj)

/-! ## The system calls -/

/-- What is unpacked from a register is no negative number. -/
lemma unpacked_nonneg (v : UInt64) (shift : ℕ) : 0 ≤ unpacked v shift :=
  Int.emod_nonneg _ (by decide)

/-- A rectangle on the screen is inside of the pixels. -/
lemma row_inside {scrW scrH : Int32} {x y w row : ℤ} (hx : 0 ≤ x) (hy : 0 ≤ y) (hrow : 0 ≤ row)
    (hw : x + w ≤ scrW.toInt) (hh : y + row < scrH.toInt) (hpos : 0 < w) :
    (((y + row) * scrW.toInt + x) * 4 % 2 ^ 64).toNat + (w * 4).toNat ≤ screenBytes scrW scrH := by
  have hwidth := scrW.toInt_lt
  have hheight := scrH.toInt_lt
  unfold screenBytes
  generalize scrW.toInt = W at hw hwidth ⊢
  generalize scrH.toInt = H at hh hheight ⊢
  have hrows : 0 ≤ (y + row) * W := Int.mul_nonneg (by omega) (by omega)
  have hle : (y + row + 1) * W ≤ H * W := Int.mul_le_mul_of_nonneg_right (by omega) (by omega)
  have hsize : H * W ≤ (2 ^ 31 - 1) * (2 ^ 31 - 1) :=
    Int.mul_le_mul (by omega) (by omega) (by omega) (by omega)
  rw [Int.add_mul, Int.one_mul] at hle
  rw [Int.mul_comm W H, Int.emod_eq_of_lt (by omega) (by omega),
    Int.emod_eq_of_lt (by omega) (by omega)]
  omega

section Calls

variable (hs : Guarded userStart userEnd s.log)

include hs

lemma wp_fail : wp (fail : Program (State σ) PUnit)
    (fun _ s' => Guarded userStart userEnd s'.log) s := by
  rw [fail, wp_setRax]
  exact hs

lemma wp_sysEventPoll :
    wp (sysEventPoll S userStart userEnd r) (fun _ s' => Guarded userStart userEnd s'.log) s := by
  refine wp_withRange hs fun s' hg hcov _ _ => ?_
  rw [wp_bind, wp_ask]
  split
  · rw [wp_setRax]
    exact hg
  · rw [wp_bind, wp_setRax, wp_copyOut]
    exact hg.access hcov

/-- The whole screen is read from the range. -/
lemma wp_sysGfxPresent :
    wp (sysGfxPresent S userStart userEnd r) (fun _ s' => Guarded userStart userEnd s'.log) s := by
  rw [sysGfxPresent, wp_bind, wp_get]
  split
  · exact wp_fail hs
  · refine wp_withRange hs fun s' hg hcov _ _ => ?_
    rw [wp_bind]
    refine wp_copyIn fun pixels => ?_
    rw [wp_bind, wp_order, wp_bind, wp_order, wp_setRax]
    exact hg.access hcov

lemma wp_sysFbInfo : wp (sysFbInfo S) (fun _ s' => Guarded userStart userEnd s'.log) s := by
  rw [sysFbInfo, wp_bind, wp_get]
  split
  · rw [wp_setRax]
    exact hs
  · rw [wp_setRax]
    exact hs

/-- The rows of a rectangle that is on the screen. -/
lemma wp_presentClipped {src : ℕ} {scrW scrH : Int32} {x y w h : ℤ} (hx : 0 ≤ x) (hy : 0 ≤ y)
    (hpos : 0 < w) (hw : x + w ≤ scrW.toInt) (hh : y + h ≤ scrH.toInt) :
    wp (presentClipped S userStart userEnd src scrW scrH x y w h)
      (fun _ s' => Guarded userStart userEnd s'.log) s := by
  refine wp_withRange hs fun s' hg hcov _ hwrap => ?_
  rw [wp_bind]
  refine wp_mono (wp_forM hg hcov fun row hrow s₁ hg₁ hcov₁ => ?_) fun _ s'' hg' => ?_
  · have hlt := List.mem_range.mp hrow
    have hin := @row_inside scrW scrH x y w row hx hy (by omega) hw (by omega) hpos
    rw [presentRow, wp_bind]
    refine wp_copyIn fun pixels => ?_
    rw [wp_order, Nat.mod_eq_of_lt (by omega)]
    have hpart := hcov₁.mono (Nat.le_add_right _ _)
      ((Nat.add_assoc _ _ _).trans_le (Nat.add_le_add_left hin src))
    exact ⟨hg₁.access hpart, hcov₁.concat _⟩
  · rw [wp_bind, wp_order, wp_setRax]
    exact hg'

lemma wp_sysGfxPresentRect :
    wp (sysGfxPresentRect S userStart userEnd r)
    (fun _ s' => Guarded userStart userEnd s'.log) s := by
  rw [sysGfxPresentRect, wp_bind, wp_get]
  split
  · exact wp_fail hs
  · have hx := unpacked_nonneg r.rsi 48
    have hy := unpacked_nonneg r.rsi 32
    dsimp only
    rw [if_neg (not_lt.mpr hx), if_neg (not_lt.mpr hx), if_neg (not_lt.mpr hy),
      if_neg (not_lt.mpr hy)]
    refine wp_ite_intro (fun _ => ?_) fun hout => ?_
    · rw [wp_setRax]
      exact hs
    · apply wp_presentClipped hs hx hy
      · split_ifs <;> omega
      · split_ifs <;> omega
      · split_ifs <;> omega

lemma wp_sysGetFont :
    wp (sysGetFont S userStart userEnd r) (fun _ s' => Guarded userStart userEnd s'.log) s := by
  refine wp_withRange hs fun s' hg hcov _ hwrap => ?_
  rw [wp_bind]
  refine wp_mono (wp_forM hg hcov fun ch hch s₁ hg₁ hcov₁ => ?_) fun _ s'' hg' => ?_
  · have hlt := List.mem_range.mp hch
    rw [wp_copyOut, Nat.mod_eq_of_lt (by omega)]
    exact ⟨hg₁.access (hcov₁.mono (by omega) (by omega)), hcov₁.concat _⟩
  · rw [wp_setRax]
    exact hg'

lemma wp_sysOpen :
    wp (sysOpen S userStart userEnd r) (fun _ s' => Guarded userStart userEnd s'.log) s := by
  refine wp_withRange hs fun s' hg hcov _ _ => ?_
  rw [wp_bind]
  refine wp_copyString fun path => ?_
  rw [wp_bind, wp_ask, setRaxInt, wp_setRax]
  exact hg.access hcov

lemma wp_sysClose : wp (sysClose S r) (fun _ s' => Guarded userStart userEnd s'.log) s := by
  rw [sysClose, wp_bind, wp_ask, setRaxInt, wp_setRax]
  exact hs

lemma wp_sysRead :
    wp (sysRead S userStart userEnd r) (fun _ s' => Guarded userStart userEnd s'.log) s := by
  refine wp_withRange hs fun s' hg hcov _ _ => ?_
  rw [wp_bind]
  refine wp_copyIn fun buf => ?_
  rw [wp_bind, wp_ask, wp_bind, wp_copyOut, setRaxInt, wp_setRax]
  exact (hg.access hcov).access (hcov.concat _)

lemma wp_sysSeek : wp (sysSeek S r) (fun _ s' => Guarded userStart userEnd s'.log) s := by
  rw [sysSeek, wp_bind, wp_ask, setRaxInt, wp_setRax]
  exact hs

lemma wp_sysFwrite :
    wp (sysFwrite S userStart userEnd r) (fun _ s' => Guarded userStart userEnd s'.log) s := by
  refine wp_withRange hs fun s' hg hcov _ _ => ?_
  rw [wp_bind]
  refine wp_copyIn fun buf => ?_
  rw [wp_bind, wp_ask, setRaxInt, wp_setRax]
  exact hg.access hcov

/-- What the kernel answers with is stored in the range of the buffer. -/
lemma wp_giveOut {size : ℕ} {res : Option (List UInt8)}
    (hcov : Covered userStart userEnd s.log p size) :
    wp (giveOut p size res) (fun _ s' => Guarded userStart userEnd s'.log) s := by
  cases res with
  | none => exact wp_fail hs
  | some data =>
    rw [giveOut, wp_bind, wp_copyOut, wp_setRax]
    exact hs.access hcov

/-- Two ranges are checked before either is accessed. -/
lemma wp_sysStat :
    wp (sysStat S userStart userEnd r) (fun _ s' => Guarded userStart userEnd s'.log) s := by
  refine wp_withRange hs fun s₁ hg₁ hpath _ _ => wp_withRange hg₁ fun s₂ hg₂ hbuf hkeep _ => ?_
  rw [wp_bind]
  refine wp_copyString fun path => ?_
  rw [wp_bind, wp_ask]
  exact wp_giveOut (hg₂.access (hkeep _ _ hpath)) (hbuf.concat _)

lemma wp_sysFstat :
    wp (sysFstat S userStart userEnd r) (fun _ s' => Guarded userStart userEnd s'.log) s := by
  refine wp_withRange hs fun s' hg hcov _ _ => ?_
  rw [wp_bind, wp_ask]
  apply wp_giveOut
  · exact hg
  · exact hcov

lemma wp_sysReaddir :
    wp (sysReaddir S userStart userEnd r) (fun _ s' => Guarded userStart userEnd s'.log) s := by
  refine wp_withRange hs fun s' hg hcov _ _ => ?_
  rw [wp_bind, wp_ask]
  apply wp_giveOut
  · exact hg
  · exact hcov

lemma wp_setRaxOk (rc : Int32) :
    wp (setRaxOk rc) (fun _ (s' : State σ) => Guarded userStart userEnd s'.log) s := by
  refine wp_ite_intro (fun _ => ?_) fun _ => wp_fail hs
  rw [wp_setRax]
  exact hs

lemma wp_sysUnlink :
    wp (sysUnlink S userStart userEnd r) (fun _ s' => Guarded userStart userEnd s'.log) s := by
  refine wp_withRange hs fun s' hg hcov _ _ => ?_
  rw [wp_bind]
  refine wp_copyString fun path => ?_
  rw [wp_bind, wp_ask]
  exact wp_setRaxOk (hg.access hcov) _

lemma wp_sysSbrk : wp (sysSbrk K r) (fun _ (s' : State σ) =>
    Guarded userStart userEnd s'.log) s := by
  rw [sysSbrk, wp_bind, wp_get]
  dsimp only
  rw [wp_bind, wp_modify, wp_setRax]
  exact hs

lemma wp_sysRename :
    wp (sysRename S userStart userEnd r) (fun _ s' => Guarded userStart userEnd s'.log) s := by
  refine wp_withRange hs fun s₁ hg₁ hold _ _ => wp_withRange hg₁ fun s₂ hg₂ hnew hkeep _ => ?_
  rw [wp_bind]
  refine wp_copyString fun oldPath => ?_
  rw [wp_bind]
  refine wp_copyString fun newPath => ?_
  rw [wp_bind, wp_ask]
  exact wp_setRaxOk ((hg₂.access (hkeep _ _ hold)).access (hnew.concat _)) _

lemma wp_sysGfxFillRect :
    wp (sysGfxFillRect S r) (fun _ s' => Guarded userStart userEnd s'.log) s := by
  rw [sysGfxFillRect, wp_bind, wp_get]
  refine wp_ite_intro (fun _ => wp_fail hs) fun _ => ?_
  rw [wp_bind, wp_order, wp_setRax]
  exact hs

lemma wp_sysGfxDrawText :
    wp (sysGfxDrawText S userStart userEnd r) (fun _ s' => Guarded userStart userEnd s'.log) s := by
  rw [sysGfxDrawText, wp_bind, wp_get]
  refine wp_ite_intro (fun _ => wp_fail hs) fun _ => wp_withRange hs fun s' hg hcov _ _ => ?_
  rw [wp_bind]
  refine wp_copyString fun text => ?_
  rw [wp_bind, wp_order, wp_setRax]
  exact hg.access hcov

lemma wp_sysGfxFlushRect :
    wp (sysGfxFlushRect S r) (fun _ s' => Guarded userStart userEnd s'.log) s := by
  rw [sysGfxFlushRect, wp_bind, wp_get]
  refine wp_ite_intro (fun _ => wp_fail hs) fun _ => ?_
  rw [wp_bind, wp_order, wp_setRax]
  exact hs

lemma wp_sysWrite :
    wp (sysWrite S userStart userEnd r) (fun _ s' => Guarded userStart userEnd s'.log) s := by
  refine wp_withRange hs fun s' hg hcov _ _ => ?_
  rw [wp_bind]
  refine wp_copyString fun text => ?_
  rw [wp_bind, wp_order, wp_setRax]
  exact hg.access hcov

/-- Every system call accesses user memory only inside of ranges that have been checked. -/
lemma wp_syscallDispatch :
    wp (syscallDispatch S K userStart userEnd)
    (fun _ s' => Guarded userStart userEnd s'.log) s := by
  have horder : ∀ g : σ → σ, wp (do order g; setRax 0)
      (fun _ (s' : State σ) => Guarded userStart userEnd s'.log) s := by
    intro g
    rw [wp_bind, wp_order, wp_setRax]
    exact hs
  rw [syscallDispatch, wp_bind, wp_get]
  split
  · exact horder _
  · exact horder _
  · rw [wp_setRax]
    exact hs
  · exact wp_sysEventPoll hs
  · exact wp_sysGfxPresent hs
  · exact wp_sysFbInfo hs
  · exact wp_sysGetFont hs
  · exact wp_sysWrite hs
  · exact wp_sysGfxPresentRect hs
  · exact wp_sysOpen hs
  · exact wp_sysClose hs
  · exact wp_sysRead hs
  · exact wp_sysSeek hs
  · exact wp_sysFwrite hs
  · exact wp_sysStat hs
  · exact wp_sysFstat hs
  · exact wp_sysReaddir hs
  · exact wp_sysUnlink hs
  · exact wp_sysSbrk hs
  · exact wp_sysRename hs
  · exact wp_sysGfxFillRect hs
  · exact wp_sysGfxDrawText hs
  · exact wp_sysGfxFlushRect hs
  · exact wp_fail hs

end Calls

/-! ## Pages for user code -/

/-- The processor lets user code reach an address: the entries of all levels are present and for
user code. -/
def UserPage (mem : Bytes) (cr3 a : ℕ) : Prop :=
  let pml4e := word mem cr3 (a / 2 ^ 39 % 512)
  let pdpte := word mem (pteAddr pml4e) (pdptIdx a)
  let pde := word mem (pteAddr pdpte) (pdIdx a)
  let pte := word mem (pteAddr pde) (ptIdx a)
  ∀ e ∈ [pml4e, pdpte, pde, pte], e &&& (pageP ||| pageU) = pageP ||| pageU

/-- The entry of a table lets user code through. -/
lemma table_user {d : ℕ} (hd : 4096 ∣ d) :
    (d ||| pageRwU) &&& (pageP ||| pageU) = pageP ||| pageU := by
  rw [and_userFlags, or_eq_add hd (by decide)]
  obtain ⟨k, rfl⟩ := hd
  rw [Nat.mul_add_mod]
  rfl

/-- What is mapped for user code in an address space is so on all levels. -/
lemma userPage_of_userMapped {as : AddrSpace} {m : ℕ → Option (ℕ × ℕ)} {L : Role → Option ℕ} {a : ℕ}
    (h : Tables mem as m L) (hdvd : ∀ p ∈ as.ownedPages, 4096 ∣ p) (hbase : userBase ≤ a)
    (htop : a < userBase + userSize) (hmapped : UserMapped mem as.pml4Phys a) :
    UserPage mem as.pml4Phys a := by
  have hlt : a < 2 ^ 39 := by
    unfold userBase userSize at htop
    omega
  obtain ⟨hne, hroot⟩ := h.pdpt
  obtain ⟨d, hd⟩ := Option.ne_none_iff_exists'.mp hne
  have hdd := hdvd d (h.owned _ _ hd)
  rw [hd, entryOf] at hroot
  obtain ⟨hpdpt, hpd, hpte⟩ := (userMapped_iff hlt (hroot.symm ▸ table_present hdd)).mp hmapped
  have hn : pdIdx a < 512 := Nat.mod_lt _ (by decide)
  rw [hroot, pteAddr_table hdd, pdptIdx_eq hbase htop, h.pd d hd] at hpdpt hpd hpte
  obtain ⟨e, he⟩ := Option.ne_none_iff_exists'.mp fun hnone : L .pd = none =>
    hpdpt (by rw [hnone]; rfl)
  have hed := hdvd e (h.owned _ _ he)
  rw [he, entryOf, pteAddr_table hed, h.pt e he _ hn] at hpd hpte
  obtain ⟨t, ht⟩ := Option.ne_none_iff_exists'.mp fun hnone : L (.pt (pdIdx a)) = none =>
    hpd (by rw [hnone]; rfl)
  have htd := hdvd t (h.owned _ _ ht)
  rw [ht, entryOf] at hpte
  unfold UserPage
  dsimp only
  rw [Nat.div_eq_of_lt hlt, Nat.zero_mod, hroot, pteAddr_table hdd,
    pdptIdx_eq hbase htop, h.pd d hd, he, entryOf, pteAddr_table hed, h.pt e he _ hn, ht, entryOf]
  intro x hx
  simp only [List.mem_cons, List.not_mem_nil, or_false] at hx
  rcases hx with rfl | rfl | rfl | rfl
  · exact table_user hdd
  · exact table_user hed
  · exact table_user htd
  · exact hpte

/-- The tables that are in use: those of an address space, or those of the kernel, which have
nothing in the window. -/
def InUse (v : Vmm) (cr3 : ℕ) : Prop :=
  (∃ i as, v.spaces i = some as ∧ cr3 = as.pml4Phys) ∨
    word v.mem (pteAddr (word v.mem cr3 0)) 1 &&& pageP = 0

/-- `is_user_range` says 1 of a range that is not empty only if every byte of it is in the shared
arena or in a page of the window that is mapped for user code, in the address spaces of every run on
all levels of the tables; and whatever is in the registers, a system call reads and writes user
memory only inside of ranges that it has got this answer for. -/
theorem syscallDispatch_guarded (S : Services σ) (K : Kmalloc) (userStart userEnd : UInt64) :
    (∀ mem cr3 p len, ∃ b, isUserRange userStart userEnd mem cr3 (UInt64.toNat p)
      (UInt64.toNat len) = some b ∧
      (b = true → p.toNat + len.toNat ≤ 2 ^ 64 ∧ ∀ a, p.toNat ≤ a → a < p.toNat + len.toNat →
        UserByte userStart userEnd mem cr3 a)) ∧
    (∀ mem live ops cr3 a, InUse (runOps K (boot mem live) ops).vmm cr3 → userBase ≤ a →
      a < userBase + userSize → UserMapped (runOps K (boot mem live) ops).vmm.mem cr3 a →
        UserPage (runOps K (boot mem live) ops).vmm.mem cr3 a) ∧
    ∀ s : State σ, wp (syscallDispatch S K userStart userEnd)
      (fun _ s' => Guarded userStart userEnd s'.log) { s with log := [] } := by
  refine ⟨fun mem cr3 p len => isUserRange_spec userStart userEnd mem cr3 p.toNat len.toNat, ?_,
    fun s => wp_syscallDispatch guarded_nil⟩
  rintro mem live ops cr3 a (⟨i, as, hs, rfl⟩ | hnone) hbase htop hmapped
  · have h := runOps_steady (boot_steady mem live) K ops
    obtain ⟨L, hL⟩ := h.ok.tables i as hs (h.complete i as hs)
    exact userPage_of_userMapped hL (fun p hp => (h.ok.pages hs p hp).1) hbase htop hmapped
  · have hlt : a < 2 ^ 39 := by
      unfold userBase userSize at htop
      omega
    obtain ⟨frame, flags, hwalk, -⟩ := hmapped
    unfold walk at hwalk
    dsimp only at hwalk
    rw [Nat.div_eq_of_lt hlt, Nat.zero_mod, pdptIdx_eq hbase htop,
      if_pos (.inr (.inl hnone))] at hwalk
    cases hwalk

end Syscall

end CoolFrost

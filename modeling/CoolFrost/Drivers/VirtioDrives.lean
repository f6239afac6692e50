import CoolFrost.Drivers.VirtioBlk

/-!
# Which device a virtio request goes to

`vblk_init` leaves the shared queue to the last function with an I/O window that it tried to set up,
and every request goes there whatever drive it names.  The queue of that function needs room for the
three descriptors of a request.  So the requests of a run are carried out by the devices of their
drives exactly when each of them names the drive of that function, and its queue has this room.
-/

namespace CoolFrost

open Vblk

namespace VirtioFunc

/-- `vblk_init_one` succeeds with the function. -/
def usable (f : VirtioFunc) : Bool :=
  f.isIo && (f.queueSize ≠ 0 && f.queueSize.toNat ≤ vqMaxSize)

end VirtioFunc

namespace VirtioBus

/-- The functions among `l` that `vblk_init` tries to set up when there is room for `room`
drives. -/
def triedFrom (bus : VirtioBus) : ℕ → List ℕ → List ℕ
  | _, [] => []
  | 0, _ => []
  | room + 1, k :: l =>
    k :: triedFrom bus (if (bus.func k).usable then room else room + 1) l

/-- The functions that `vblk_init` tries to set up. -/
def tried (bus : VirtioBus) : List ℕ := bus.triedFrom maxVblk (List.range bus.funcs.length)

/-- The function of each drive. -/
def drives (bus : VirtioBus) : List ℕ := bus.tried.filter fun k => (bus.func k).usable

/-- The function that the queue is left to. -/
def owner (bus : VirtioBus) : Option ℕ := (bus.tried.filter fun k => (bus.func k).isIo).getLast?

/-- The drive number `i` is the one that the queue was left to, and the queue has room for the chain
of a request. -/
def Serves (bus : VirtioBus) (i : ℕ) : Prop :=
  bus.drives[i]? = bus.owner ∧ 3 ≤ (bus.func (bus.drives.getD i 0)).queueSize.toNat

instance (bus : VirtioBus) (i : ℕ) : Decidable (bus.Serves i) := inferInstanceAs (Decidable (_ ∧ _))

lemma serves_iff {bus : VirtioBus} {i k : ℕ} (h : bus.drives[i]? = some k) :
    bus.Serves i ↔ bus.owner = some k ∧ 3 ≤ (bus.func k).queueSize.toNat := by
  rw [Serves, h, List.getD_eq_getElem?_getD, h, Option.getD_some, eq_comm]

/-- A function is found under the first port of its window. -/
lemma devAt_ioBase {bus : VirtioBus} {k : ℕ} (hk : k < bus.funcs.length)
    (hio : (bus.func k).isIo) : bus.devAt (bus.func k).ioBase = some k := by
  have hfunc : ∀ j, (hj : j < bus.funcs.length) → bus.func j = bus.funcs[j] := by
    intro j hj
    simp [func, hj]
  rw [devAt, List.findIdx?_eq_some_iff_getElem]
  refine ⟨hk, ?_, fun j hj => ?_⟩
  · rw [← hfunc k hk]
    simp [hio]
  · have hj' : j < bus.funcs.length := by omega
    rw [← hfunc j hj']
    intro hboth
    obtain ⟨hjio, hbase⟩ : (bus.func j).isIo ∧ (bus.func j).ioBase = (bus.func k).ioBase := by
      simpa using hboth
    have heq := bus.windows (i := j) (j := k) (List.getElem?_eq_getElem hj')
      (List.getElem?_eq_getElem hk) (by rwa [← hfunc j hj']) (by rwa [← hfunc k hk])
      (by rw [← hfunc j hj', ← hfunc k hk]; exact hbase)
    omega

end VirtioBus

namespace Vblk

variable {bus : VirtioBus} {s : Vblk} {k : ℕ}

/-! ## Initialisation -/

/-- The queue is that of device `k`, which is ready and has seen all of it. -/
structure Ready (bus : VirtioBus) (s : Vblk) (k : ℕ) : Prop where
  base : s.vqIoBase = (bus.func k).ioBase
  status : (s.dev k).status &&& virtioDrvOk ≠ 0
  pfn : (s.dev k).queuePfn = virtqPfn
  seen : (s.dev k).seen = s.availIdx
  head : s.vqAvailHead = s.availIdx
  used : s.vqUsedLast = s.usedIdx
  size : s.vqSize = (bus.func k).queueSize
  size_ne : s.vqSize ≠ 0

/-- A port write reaches the function whose window it is in. -/
lemma atPort_eq (hk : k < bus.funcs.length) (hio : (bus.func k).isIo)
    (g : VirtioDev → VirtioDev) (s : Vblk) :
    atPort bus (bus.func k).ioBase g s =
      { s with dev := Function.update s.dev k (g (s.dev k)) } := by
  rw [atPort, VirtioBus.devAt_ioBase hk hio]

/-- A function without an I/O window is left alone. -/
lemma vblkInitOne_of_not_isIo (hio : (bus.func k).isIo = false) :
    vblkInitOne bus k s = (false, s) := by
  simp [vblkInitOne, hio]

/-- A function with a bad queue size gets the queue but no drive. -/
lemma vblkInitOne_of_not_usable (hk : k < bus.funcs.length) (hio : (bus.func k).isIo)
    (hbad : (bus.func k).usable = false) :
    (vblkInitOne bus k s).2.initialised = s.initialised ∧
      (vblkInitOne bus k s).2.vblkNdrive = s.vblkNdrive ∧
      (vblkInitOne bus k s).2.vqIoBase = (bus.func k).ioBase := by
  have hsize : inQueueSize bus (bus.func k).ioBase = 0 ∨
      vqMaxSize < (inQueueSize bus (bus.func k).ioBase).toNat := by
    rw [inQueueSize, VirtioBus.devAt_ioBase hk hio]
    simp only [VirtioFunc.usable, hio, Bool.true_and, Bool.and_eq_false_iff,
      decide_eq_false_iff_not, not_not, not_le] at hbad
    exact hbad
  simp only [vblkInitOne, hio, Bool.not_true, Bool.false_eq_true, if_false, outStatus,
    atPort_eq hk hio, if_pos hsize, and_self]

/-- A usable function gets the queue and a drive. -/
lemma vblkInitOne_of_usable (hk : k < bus.funcs.length) (hok : (bus.func k).usable) :
    (vblkInitOne bus k s).2.initialised = s.initialised ++ [k] ∧
      (vblkInitOne bus k s).2.vblkNdrive = s.vblkNdrive + 1 ∧
      Ready bus (vblkInitOne bus k s).2 k := by
  obtain ⟨hio, hne, hle⟩ : (bus.func k).isIo ∧ (bus.func k).queueSize ≠ 0 ∧
      (bus.func k).queueSize.toNat ≤ vqMaxSize := by
    simpa [VirtioFunc.usable] using hok
  have hread : inQueueSize bus (bus.func k).ioBase = (bus.func k).queueSize := by
    rw [inQueueSize, VirtioBus.devAt_ioBase hk hio]
  have hsize : ¬((bus.func k).queueSize = 0 ∨ vqMaxSize < (bus.func k).queueSize.toNat) :=
    not_or.mpr ⟨hne, Nat.not_lt.mpr hle⟩
  simp only [vblkInitOne, hio, Bool.not_true, Bool.false_eq_true, if_false, outStatus, outQueueAddr,
    atPort_eq hk hio, hread, if_neg hsize, true_and]
  refine ⟨rfl, ?_, ?_, ?_, rfl, rfl, rfl, hne⟩
  · simp [virtioAck, virtioDrv, virtioDrvOk]
    decide
  · simp [virtioAck, virtioDrv]
  · simp [virtioAck, virtioDrv]

/-- The queue belongs to device `o`, and the device is ready unless it could not be set up. -/
def Owned (bus : VirtioBus) (s : Vblk) (o : Option ℕ) : Prop :=
  ∀ k, o = some k → k < bus.funcs.length ∧ (bus.func k).isIo ∧ s.vqIoBase = (bus.func k).ioBase ∧
    ((bus.func k).usable → Ready bus s k)

/-- A later function takes the queue over. -/
lemma getLast?_toList_append_cons (o : Option ℕ) (k : ℕ) (l : List ℕ) :
    (o.toList ++ k :: l).getLast? = ((some k).toList ++ l).getLast? := by
  rw [List.getLast?_append_of_ne_nil _ (List.cons_ne_nil k l)]
  rfl

/-- The scan gives a drive to every usable function it tries, and leaves the queue to the last
function it tries that has an I/O window. -/
lemma foldl_vblkScan (bus : VirtioBus) (s : Vblk) (l : List ℕ) (hl : ∀ k ∈ l, k < bus.funcs.length)
    (o : Option ℕ) (ho : Owned bus s o) (room : ℕ) (hroom : s.vblkNdrive + room = maxVblk) :
    (l.foldl (vblkScan bus) s).initialised = s.initialised ++
        (bus.triedFrom room l).filter (fun k => (bus.func k).usable) ∧
      (l.foldl (vblkScan bus) s).vblkNdrive = s.vblkNdrive +
        ((bus.triedFrom room l).filter fun k => (bus.func k).usable).length ∧
      (l.foldl (vblkScan bus) s).vblkNdrive ≤ maxVblk ∧
      Owned bus (l.foldl (vblkScan bus) s)
        (o.toList ++ (bus.triedFrom room l).filter fun k => (bus.func k).isIo).getLast? := by
  induction l generalizing s o room with
  | nil =>
    refine ⟨by simp [VirtioBus.triedFrom], by simp [VirtioBus.triedFrom], by simp; omega, ?_⟩
    cases o <;> simpa [VirtioBus.triedFrom] using ho
  | cons k l ih =>
    have hk : k < bus.funcs.length := hl k List.mem_cons_self
    have hl' : ∀ k ∈ l, k < bus.funcs.length := fun j hj => hl j (List.mem_cons_of_mem _ hj)
    rw [List.foldl_cons]
    cases room with
    | zero =>
      have hscan : vblkScan bus s k = s := if_pos (by omega)
      have hnil : bus.triedFrom 0 l = [] := by cases l <;> rfl
      have := ih _ hl' o ho 0 hroom
      rw [hnil] at this
      rw [hscan]
      exact this
    | succ room =>
      have hscan : vblkScan bus s k = (vblkInitOne bus k s).2 := if_neg (by omega)
      rw [hscan]
      by_cases hok : (bus.func k).usable
      · obtain ⟨hinit, hn, hready⟩ := vblkInitOne_of_usable (s := s) hk hok
        have hio : (bus.func k).isIo := by
          rw [VirtioFunc.usable, Bool.and_eq_true] at hok
          exact hok.1
        have hown : Owned bus (vblkInitOne bus k s).2 (some k) := by
          rintro j ⟨⟩
          exact ⟨hk, hio, hready.base, fun _ => hready⟩
        obtain ⟨h₁, h₂, h₃, h₄⟩ := ih _ hl' (some k) hown room (by omega)
        simp only [VirtioBus.triedFrom, hok, if_true, List.filter_cons_of_pos, hio,
          List.length_cons, getLast?_toList_append_cons]
        refine ⟨?_, ?_, h₃, h₄⟩
        · rw [h₁, hinit, List.append_assoc]
          rfl
        · rw [h₂, hn]
          omega
      · have hbad : (bus.func k).usable = false := Bool.not_eq_true _ ▸ hok
        simp only [VirtioBus.triedFrom, hbad, Bool.false_eq_true, if_false, not_false_eq_true,
          List.filter_cons_of_neg]
        cases hio : (bus.func k).isIo with
        | false =>
          rw [vblkInitOne_of_not_isIo hio, List.filter_cons_of_neg (by simp [hio])]
          exact ih _ hl' o ho (room + 1) hroom
        | true =>
          obtain ⟨hinit, hn, hbase⟩ := vblkInitOne_of_not_usable (s := s) hk hio hbad
          have hown : Owned bus (vblkInitOne bus k s).2 (some k) := by
            rintro j ⟨⟩
            exact ⟨hk, hio, hbase, fun hok => absurd hok (by simp [hbad])⟩
          rw [List.filter_cons_of_pos (p := fun k => (bus.func k).isIo) hio,
            getLast?_toList_append_cons, ← hinit, ← hn]
          exact ih _ hl' (some k) hown (room + 1) (by omega)

/-- What `vblk_init` leaves behind. -/
lemma vblkInit_spec (bus : VirtioBus) (dev : ℕ → VirtioDev) :
    (vblkInit bus (boot dev)).initialised = bus.drives ∧
      (vblkInit bus (boot dev)).vblkNdrive = bus.drives.length ∧ bus.drives.length ≤ maxVblk ∧
      Owned bus (vblkInit bus (boot dev)) bus.owner := by
  obtain ⟨h₁, h₂, h₃, h₄⟩ := foldl_vblkScan bus (boot dev)
    (List.range bus.funcs.length) (fun k hk => List.mem_range.mp hk) none
    (by rintro k ⟨⟩) maxVblk rfl
  have hn : (vblkInit bus (boot dev)).vblkNdrive = bus.drives.length :=
    h₂.trans (Nat.zero_add _)
  exact ⟨h₁, hn, hn ▸ h₃, h₄⟩

/-! ## Requests -/

/-- An index that was just counted up is one ahead. -/
lemma toNat_add_one_sub (a : UInt16) : (a + 1 - a).toNat = 1 := by
  rw [UInt16.add_comm, UInt16.add_sub_cancel]
  rfl

/-- The record of what happens is cleared before each request. -/
def clear (s : Vblk) : Vblk := { s with notified := [], served := [] }

/-- The variables of the driver that requests leave alone, and the devices notified. -/
lemma serveOne_frame (bus : VirtioBus) (k : ℕ) (s : Vblk) :
    (serveOne bus k s).notified = s.notified ∧ (serveOne bus k s).vqIoBase = s.vqIoBase ∧
      (serveOne bus k s).vblkNdrive = s.vblkNdrive := by
  unfold serveOne
  dsimp only
  split_ifs <;> exact ⟨rfl, rfl, rfl⟩

lemma serveOne_iterate_frame (bus : VirtioBus) (k n : ℕ) (s : Vblk) :
    ((serveOne bus k)^[n] s).notified = s.notified ∧
      ((serveOne bus k)^[n] s).vqIoBase = s.vqIoBase ∧
      ((serveOne bus k)^[n] s).vblkNdrive = s.vblkNdrive := by
  induction n generalizing s with
  | zero => exact ⟨rfl, rfl, rfl⟩
  | succ n ih =>
    obtain ⟨h₁, h₂, h₃⟩ := serveOne_frame bus k s
    obtain ⟨i₁, i₂, i₃⟩ := ih (serveOne bus k s)
    exact ⟨i₁.trans h₁, i₂.trans h₂, i₃.trans h₃⟩

lemma notify_frame (hk : k < bus.funcs.length) (hio : (bus.func k).isIo)
    (hbase : s.vqIoBase = (bus.func k).ioBase) :
    (notify bus s.vqIoBase s).notified = s.notified ++ [k] ∧
      (notify bus s.vqIoBase s).vqIoBase = s.vqIoBase ∧
      (notify bus s.vqIoBase s).vblkNdrive = s.vblkNdrive := by
  rw [hbase, notify, VirtioBus.devAt_ioBase hk hio]
  dsimp only
  split_ifs
  · obtain ⟨h₁, h₂, h₃⟩ := serveOne_iterate_frame bus k
      (s.availIdx - (s.dev k).seen).toNat { s with notified := s.notified ++ [k] }
    exact ⟨h₁, h₂.trans hbase, h₃⟩
  · exact ⟨rfl, hbase, rfl⟩

lemma takeUsed_frame (s : Vblk) :
    (takeUsed s).2.notified = s.notified ∧ (takeUsed s).2.served = s.served ∧
      (takeUsed s).2.vqIoBase = s.vqIoBase ∧ (takeUsed s).2.vblkNdrive = s.vblkNdrive := by
  unfold takeUsed
  split_ifs <;> exact ⟨rfl, rfl, rfl, rfl⟩

/-- Every request notifies the device that the queue was left to. -/
lemma vblkIssue_notified (hk : k < bus.funcs.length) (hio : (bus.func k).isIo)
    (hbase : s.vqIoBase = (bus.func k).ioBase) {type : UInt32} {lba : UInt64} {len : ℕ} {ok : Bool}
    {s' : Vblk} (h : vblkIssue bus type lba len s = some (ok, s')) :
    s'.notified = s.notified ++ [k] ∧ s'.vqIoBase = s.vqIoBase ∧ s'.vblkNdrive = s.vblkNdrive := by
  rw [vblkIssue] at h
  split_ifs at h
  obtain ⟨-, rfl⟩ := Prod.ext_iff.mp (Option.some.inj h)
  obtain ⟨h₁, h₂, h₃⟩ := notify_frame (s := queueChain type lba len s) hk hio hbase
  obtain ⟨i₁, -, i₂, i₃⟩ := takeUsed_frame (notify bus s.vqIoBase (queueChain type lba len s))
  exact ⟨i₁.trans h₁, i₂.trans h₂, i₃.trans h₃⟩

/-- The device of the queue reads the head of a chain that has just been put into it. -/
lemma availRing_queueChain (h : Ready bus s k) (type : UInt32) (lba : UInt64) (len : ℕ) :
    (queueChain type lba len s).availRing
      ((s.dev k).seen.toNat % (bus.func k).queueSize.toNat) = 0 := by
  rw [← h.size, h.seen, ← h.head]
  exact Function.update_self _ _ _

/-- The descriptors of a chain are intact if the queue has room for them. -/
lemma desc_queueChain (h : 3 ≤ s.vqSize.toNat) (type : UInt32) (lba : UInt64) (len : ℕ) {i : ℕ}
    (hi : i < 3) : (queueChain type lba len s).desc i = chain type len s.desc i :=
  if_neg (by omega)

/-- The device of the queue takes a chain that has just been put into it. -/
lemma serveOne_queueChain (h : Ready bus s k) (h3 : 3 ≤ (bus.func k).queueSize.toNat)
    (type : UInt32) (lba : UInt64) (len : ℕ) (l : List ℕ) :
    serveOne bus k { queueChain type lba len s with notified := l } =
      let s₁ := { queueChain type lba len s with notified := l }
      let r := execute (bus.func k).capacity s₁ (s.dev k).disk len
      { s₁ with
        dev := Function.update s.dev k
          { s.dev k with disk := r.1, seen := (s.dev k).seen + 1 }
        vblkDma := r.2.1
        vblkStat := r.2.2
        usedIdx := s.usedIdx + 1
        served := s.served ++ [k] } := by
  have hring := availRing_queueChain h type lba len
  have hdesc : ∀ i < 3, (queueChain type lba len s).desc i = chain type len s.desc i :=
    fun i hi => desc_queueChain (h.size ▸ h3) type lba len hi
  have hzero : (0 : UInt16).toNat = 0 := rfl
  simp only [serveOne]
  rw [show (queueChain type lba len s).dev = s.dev from rfl, hring, hzero, hdesc 0 (by decide)]
  have hnext₀ : (chain type len s.desc 0).next.toNat = 1 := rfl
  rw [hnext₀, hdesc 1 (by decide)]
  have hnext₁ : (chain type len s.desc 1).next.toNat = 2 := rfl
  rw [hnext₁, hdesc 2 (by decide), if_pos ⟨⟨by omega, by omega⟩, rfl, rfl, rfl⟩]
  rfl

/-- The device of a queue without room for the chain does not carry it out. -/
lemma serveOne_small (h : Ready bus s k) (h3 : ¬3 ≤ (bus.func k).queueSize.toNat)
    (type : UInt32) (lba : UInt64) (len : ℕ) (l : List ℕ) :
    serveOne bus k { queueChain type lba len s with notified := l } =
      { queueChain type lba len s with
        notified := l
        dev := Function.update s.dev k { s.dev k with seen := (s.dev k).seen + 1 } } := by
  have hring := availRing_queueChain h type lba len
  have hne : s.vqSize.toNat ≠ 0 := fun h0 => h.size_ne (UInt16.toNat_inj.mp h0)
  -- the number of the next descriptor is out of the address that may be lost
  have hnext : ∀ i, ((queueChain type lba len s).desc i).next = (chain type len s.desc i).next := by
    intro i
    simp only [queueChain]
    split_ifs <;> rfl
  have hzero : (0 : UInt16).toNat = 0 := rfl
  simp only [serveOne]
  rw [show (queueChain type lba len s).dev = s.dev from rfl, hring, hzero, if_neg]
  rintro ⟨⟨-, hlast⟩, -⟩
  rw [hnext 0] at hlast
  have hnext₀ : (chain type len s.desc 0).next.toNat = 1 := rfl
  rw [hnext₀, hnext 1] at hlast
  exact h3 hlast

/-- Every request of a ready device is one that the device looks at. -/
lemma notify_queueChain (hk : k < bus.funcs.length) (hio : (bus.func k).isIo) (h : Ready bus s k)
    (type : UInt32) (lba : UInt64) (len : ℕ) :
    notify bus s.vqIoBase (queueChain type lba len s) =
      serveOne bus k { queueChain type lba len s with notified := s.notified ++ [k] } := by
  have hone : ((queueChain type lba len s).availIdx - (s.dev k).seen).toNat = 1 := by
    simp only [queueChain, h.head, h.seen, toNat_add_one_sub]
  rw [h.base, notify, VirtioBus.devAt_ioBase hk hio]
  dsimp only
  rw [if_pos ⟨h.status, h.pfn⟩]
  exact congrFun (congrArg _ hone) _

/-- A request of a queue without room for it is not carried out: the driver waits for nothing. -/
lemma vblkIssue_small (hk : k < bus.funcs.length) (hio : (bus.func k).isIo) (h : Ready bus s k)
    (h3 : ¬3 ≤ (bus.func k).queueSize.toNat) (type : UInt32) (lba : UInt64) (len : ℕ) :
    ∃ s', vblkIssue bus type lba len s = some (false, s') ∧ Ready bus s' k ∧
      s'.served = s.served := by
  have hserve := serveOne_small h h3 type lba len (s.notified ++ [k])
  rw [← notify_queueChain hk hio h] at hserve
  have htake : takeUsed (notify bus s.vqIoBase (queueChain type lba len s)) =
      (false, notify bus s.vqIoBase (queueChain type lba len s)) := by
    rw [hserve]
    exact if_pos h.used.symm
  refine ⟨_, by rw [vblkIssue, if_neg h.size_ne, htake], ?_, by rw [hserve]; rfl⟩
  rw [hserve]
  refine ⟨h.base, ?_, ?_, ?_, rfl, h.used, h.size, h.size_ne⟩
  · simpa using h.status
  · simpa using h.pfn
  · simp [queueChain, h.seen, h.head]

/-- A ready device whose queue has room for the request carries it out on its disk and the data
buffer, and is ready again. -/
lemma vblkIssue_carried (hk : k < bus.funcs.length) (hio : (bus.func k).isIo) (h : Ready bus s k)
    (h3 : 3 ≤ (bus.func k).queueSize.toNat) (type : UInt32) (lba : UInt64) (len : ℕ) :
    ∃ s₁ s', s₁.hdrType = type ∧ s₁.hdrSector = lba ∧ s₁.vblkDma = s.vblkDma ∧
      vblkIssue bus type lba len s =
        some (decide ((execute (bus.func k).capacity s₁ (s.dev k).disk len).2.2 = 0), s') ∧
      Ready bus s' k ∧ s'.served = s.served ++ [k] ∧
      s'.vblkDma = (execute (bus.func k).capacity s₁ (s.dev k).disk len).2.1 ∧
      s'.dev = Function.update s.dev k { s.dev k with
        disk := (execute (bus.func k).capacity s₁ (s.dev k).disk len).1
        seen := (s.dev k).seen + 1 } := by
  have hnotify := notify_queueChain hk hio h type lba len
  have hused : s.usedIdx + 1 ≠ s.vqUsedLast := by
    rw [h.used]
    intro heq
    have := toNat_add_one_sub s.usedIdx
    rw [heq, UInt16.sub_self] at this
    cases this
  have hserve := serveOne_queueChain h h3 type lba len (s.notified ++ [k])
  obtain ⟨s₂, hs₂⟩ : ∃ s₂, serveOne bus k
      { queueChain type lba len s with notified := s.notified ++ [k] } = s₂ := ⟨_, rfl⟩
  rw [hs₂] at hnotify hserve
  dsimp only at hserve
  have htake : takeUsed s₂ = (decide (s₂.vblkStat = 0), { s₂ with vqUsedLast := s₂.usedIdx }) :=
    if_neg (by rw [hserve]; exact hused)
  have hissue : vblkIssue bus type lba len s =
      some (decide (s₂.vblkStat = 0), { s₂ with vqUsedLast := s₂.usedIdx }) := by
    rw [vblkIssue, if_neg h.size_ne, hnotify, htake]
  clear hs₂ hnotify htake
  subst hserve
  refine ⟨{ queueChain type lba len s with notified := s.notified ++ [k] }, _, rfl, rfl, rfl,
    hissue, ⟨h.base, ?_, ?_, ?_, rfl, rfl, h.size, h.size_ne⟩, rfl, rfl, rfl⟩
  · simpa using h.status
  · simpa using h.pfn
  · simp [queueChain, h.seen, h.head]

/-- A ready device is ready again after a request, which it carries out exactly if its queue has
room for it. -/
lemma vblkIssue_ready (hk : k < bus.funcs.length) (hio : (bus.func k).isIo) (h : Ready bus s k)
    (type : UInt32) (lba : UInt64) (len : ℕ) :
    ∃ ok s', vblkIssue bus type lba len s = some (ok, s') ∧ Ready bus s' k ∧
      s'.served = s.served ++ if 3 ≤ (bus.func k).queueSize.toNat then [k] else [] := by
  by_cases h3 : 3 ≤ (bus.func k).queueSize.toNat
  · obtain ⟨_, s', -, -, -, hissue, hready, hserved, -⟩ :=
      vblkIssue_carried hk hio h h3 type lba len
    exact ⟨_, s', hissue, hready, by rw [if_pos h3, hserved]⟩
  · obtain ⟨s', hissue, hready, hserved⟩ := vblkIssue_small hk hio h h3 type lba len
    exact ⟨_, s', hissue, hready, by rw [if_neg h3, List.append_nil, hserved]⟩

/-- No request changes another device than the one that the queue was left to. -/
lemma vblkIssue_dev (hk : k < bus.funcs.length) (hio : (bus.func k).isIo)
    (hbase : s.vqIoBase = (bus.func k).ioBase) {type : UInt32} {lba : UInt64} {len : ℕ} {ok : Bool}
    {s' : Vblk} (h : vblkIssue bus type lba len s = some (ok, s')) {j : ℕ} (hj : j ≠ k) :
    s'.dev j = s.dev j := by
  have hserve : ∀ t : Vblk, (serveOne bus k t).dev j = t.dev j := by
    intro t
    unfold serveOne
    dsimp only
    split_ifs
    · exact Function.update_of_ne hj _ _
    · exact Function.update_of_ne hj _ _
  have hiterate : ∀ (n : ℕ) (t : Vblk), ((serveOne bus k)^[n] t).dev j = t.dev j := by
    intro n
    induction n with
    | zero => exact fun _ => rfl
    | succ n ih => exact fun t => (ih _).trans (hserve t)
  rw [vblkIssue] at h
  split_ifs at h
  obtain ⟨-, rfl⟩ := Prod.ext_iff.mp (Option.some.inj h)
  have htake : ∀ t : Vblk, (takeUsed t).2.dev = t.dev := by
    intro t
    unfold takeUsed
    split_ifs <;> rfl
  rw [htake, hbase, notify, VirtioBus.devAt_ioBase hk hio]
  dsimp only
  split_ifs
  · exact hiterate _ _
  · rfl

/-! ## One request -/

end Vblk

namespace VblkReq

/-- The request gets as far as the queue: it names a drive, and not too many sectors. -/
def Effective (bus : VirtioBus) (r : VblkReq) : Prop :=
  r.drv.toNat < bus.drives.length ∧ r.count ≠ 0 ∧ r.count.toNat ≤ vqMaxSize

instance (bus : VirtioBus) (r : VblkReq) : Decidable (r.Effective bus) :=
  inferInstanceAs (Decidable (_ ∧ _ ∧ _))

/-- The devices that a request should reach: the one of the drive that it names. -/
def target (bus : VirtioBus) (r : VblkReq) : List ℕ :=
  if r.Effective bus then (bus.drives[r.drv.toNat]?).toList else []

end VblkReq

namespace Vblk

variable {bus : VirtioBus} {s : Vblk} {k : ℕ} {r : VblkReq}

/-- A request that does not get as far as the queue changes nothing. -/
lemma handle_of_not_effective (hn : s.vblkNdrive = bus.drives.length)
    (hle : bus.drives.length ≤ maxVblk) (hr : ¬r.Effective bus) :
    handle bus s r = some (⟨if r.count = 0 then some [] else none, [], []⟩, s.clear) := by
  have hmod : s.vblkNdrive % 256 = bus.drives.length := by
    rw [hn]
    exact Nat.mod_eq_of_lt (lt_of_le_of_lt hle (by decide))
  have hcase : (bus.drives.length ≤ r.drv.toNat ∨ r.count = 0) ∨
      vqMaxSize * 512 < r.count.toNat * 512 := by
    by_contra hcon
    exact hr ⟨by omega, fun h0 => hcon (Or.inl (Or.inr h0)), by omega⟩
  have hbig : vqMaxSize * 512 < r.count.toNat * 512 → r.count ≠ 0 := by
    intro hbig h0
    rw [h0] at hbig
    exact absurd hbig (by decide)
  by_cases hfirst : bus.drives.length ≤ r.drv.toNat ∨ r.count = 0
  · cases r <;> simp only [VblkReq.drv, VblkReq.count] at hfirst <;>
      simp only [handle, vblkReadSectors, vblkWriteSectors, hmod, if_pos hfirst] <;> rfl
  · have hsecond := hcase.resolve_left hfirst
    rw [if_neg (hbig hsecond)]
    cases r <;> simp only [VblkReq.drv, VblkReq.count] at hfirst hsecond <;>
      simp only [handle, vblkReadSectors, vblkWriteSectors, hmod, if_neg hfirst, if_pos hsecond] <;>
      rfl

/-- A request that gets as far as the queue is issued, with what it does to the data buffer before
and the reply it makes of the outcome. -/
lemma handle_of_effective (hn : s.vblkNdrive = bus.drives.length)
    (hle : bus.drives.length ≤ maxVblk) (hr : r.Effective bus) :
    ∃ type lba len, ∃ g : Vblk → Vblk, ∃ f : Bool → Vblk → Option (List UInt8),
      (∀ t : Vblk, g t = { t with vblkDma := (g t).vblkDma }) ∧
      handle bus s r = (vblkIssue bus type lba len (g s.clear)).map fun (ok, t) =>
        (⟨f ok t, t.notified, t.served⟩, t) := by
  have hmod : s.vblkNdrive % 256 = bus.drives.length := by
    rw [hn]
    exact Nat.mod_eq_of_lt (lt_of_le_of_lt hle (by decide))
  obtain ⟨hdrv, hne, hcount⟩ := hr
  have hfirst : ¬(bus.drives.length ≤ r.drv.toNat ∨ r.count = 0) :=
    not_or.mpr ⟨Nat.not_le.mpr hdrv, hne⟩
  have hsecond : ¬vqMaxSize * 512 < r.count.toNat * 512 := by omega
  cases r with
  | read drv lba count =>
    simp only [VblkReq.drv, VblkReq.count] at hfirst hsecond
    refine ⟨blkIn, lba, count.toNat * 512, id,
      fun ok t => if ok then some (Bytes.slice t.vblkDma 0 (count.toNat * 512)) else none,
      fun _ => rfl, ?_⟩
    simp only [handle, vblkReadSectors, hmod, if_neg hfirst, if_neg hsecond, id]
    exact Option.map_map _ _ _
  | write drv lba count buf =>
    simp only [VblkReq.drv, VblkReq.count] at hfirst hsecond
    refine ⟨blkOut, lba, count.toNat * 512,
      fun t => { t with vblkDma := Bytes.blit t.vblkDma 0 buf (count.toNat * 512) },
      fun ok _ => if ok then some [] else none, fun _ => rfl, ?_⟩
    simp only [handle, vblkWriteSectors, hmod, if_neg hfirst, if_neg hsecond]
    exact Option.map_map _ _ _

/-- The drives are different devices, all among those that were tried. -/
lemma triedFrom_sublist (bus : VirtioBus) (room : ℕ) (l : List ℕ) :
    (bus.triedFrom room l).Sublist l := by
  induction l generalizing room with
  | nil => exact List.Sublist.refl _
  | cons k l ih =>
    cases room with
    | zero => exact List.nil_sublist _
    | succ room => exact (ih _).cons_cons k

lemma nodup_drives (bus : VirtioBus) : bus.drives.Nodup :=
  ((triedFrom_sublist bus _ _).nodup List.nodup_range).filter _

/-- The device of a drive is usable and in range. -/
lemma of_drives_eq_some {i : ℕ} (h : bus.drives[i]? = some k) :
    k < bus.funcs.length ∧ (bus.func k).usable ∧ (bus.func k).isIo := by
  obtain ⟨hmem, hok⟩ := List.mem_filter.mp (List.mem_of_getElem? h)
  have hk := List.mem_range.mp ((triedFrom_sublist bus _ _).subset hmem)
  refine ⟨hk, hok, ?_⟩
  rw [VirtioFunc.usable, Bool.and_eq_true] at hok
  exact hok.1

/-- When there is a drive, the queue was left to some device. -/
lemma owner_of_drives {i : ℕ} (h : bus.drives[i]? = some k) :
    ∃ o, bus.owner = some o ∧ o < bus.funcs.length ∧ (bus.func o).isIo := by
  obtain ⟨hmem, -⟩ := List.mem_filter.mp (List.mem_of_getElem? h)
  have hio : k ∈ bus.tried.filter fun k => (bus.func k).isIo :=
    List.mem_filter.mpr ⟨hmem, (of_drives_eq_some h).2.2⟩
  obtain ⟨o, ho⟩ := Option.ne_none_iff_exists'.mp
    (mt List.getLast?_eq_none_iff.mp (List.ne_nil_of_mem hio))
  obtain ⟨hmem', hio'⟩ := List.mem_filter.mp (List.mem_of_getLast? ho)
  exact ⟨o, ho, List.mem_range.mp ((triedFrom_sublist bus _ _).subset hmem'), hio'⟩

/-! ## Runs -/

/-- The queue is the one that `vblk_init` left, and works if its device does. -/
structure Stable (bus : VirtioBus) (s : Vblk) : Prop where
  ndrive : s.vblkNdrive = bus.drives.length
  owned : Owned bus s bus.owner

lemma Stable.clear (h : Stable bus s) : Stable bus s.clear := by
  refine ⟨h.ndrive, fun k hk => ?_⟩
  obtain ⟨h₁, h₂, h₃, h₄⟩ := h.owned k hk
  refine ⟨h₁, h₂, h₃, fun hok => ?_⟩
  have hr := h₄ hok
  exact ⟨hr.base, hr.status, hr.pfn, hr.seen, hr.head, hr.used, hr.size, hr.size_ne⟩

/-- Every request that is issued leaves the queue as it was. -/
lemma Stable.issue (h : Stable bus s) {i : ℕ} {d : ℕ} (hd : bus.drives[i]? = some d)
    {type : UInt32} {lba : UInt64} {len : ℕ} {ok : Bool} {s' : Vblk}
    (hissue : vblkIssue bus type lba len s = some (ok, s')) : Stable bus s' := by
  obtain ⟨o, ho, hlt, hio⟩ := owner_of_drives hd
  have hbase := (h.owned o ho).2.2.1
  obtain ⟨-, hbase', hndrive⟩ := vblkIssue_notified hlt hio hbase hissue
  refine ⟨hndrive.trans h.ndrive, fun j hj => ?_⟩
  obtain rfl : o = j := Option.some.inj (ho.symm.trans hj)
  refine ⟨hlt, hio, hbase'.trans hbase, fun hok => ?_⟩
  obtain ⟨_, _, hissue', hready, -⟩ :=
    vblkIssue_ready hlt hio ((h.owned o ho).2.2.2 hok) type lba len
  obtain ⟨-, rfl⟩ := Prod.mk.inj (Option.some.inj (hissue.symm.trans hissue'))
  exact hready

/-- The data buffer is no part of the queue. -/
lemma Stable.dma (h : Stable bus s) (dma : Bytes) : Stable bus { s with vblkDma := dma } := by
  refine ⟨h.ndrive, fun k hk => ?_⟩
  obtain ⟨h₁, h₂, h₃, h₄⟩ := h.owned k hk
  refine ⟨h₁, h₂, h₃, fun hok => ?_⟩
  have hr := h₄ hok
  exact ⟨hr.base, hr.status, hr.pfn, hr.seen, hr.head, hr.used, hr.size, hr.size_ne⟩

/-- The tests that both sector functions begin with. -/
lemma guards_iff (hle : bus.drives.length ≤ maxVblk) (h : Stable bus s) {drv count : UInt8} :
    s.vblkNdrive % 256 ≤ drv.toNat ∨ count = 0 ↔ bus.drives.length ≤ drv.toNat ∨ count = 0 := by
  rw [h.ndrive, Nat.mod_eq_of_lt (lt_of_le_of_lt hle (by decide))]

/-- Both sector functions leave the queue as it was. -/
lemma Stable.sectors (hle : bus.drives.length ≤ maxVblk) (h : Stable bus s) (drv : UInt8)
    (lba : UInt64) (count : UInt8) (buf : Bytes) {res : Option (List UInt8)} {s' : Vblk} :
    (vblkReadSectors bus drv lba count s = some (res, s') → Stable bus s') ∧
      (vblkWriteSectors bus drv lba count buf s = some (res, s') → Stable bus s') := by
  by_cases hguard : s.vblkNdrive % 256 ≤ drv.toNat ∨ count = 0
  · rw [vblkReadSectors, vblkWriteSectors, if_pos hguard, if_pos hguard]
    constructor <;> intro heq <;> exact (Prod.mk.inj (Option.some.inj heq)).2 ▸ h
  by_cases hlarge : vqMaxSize * 512 < count.toNat * 512
  · rw [vblkReadSectors, vblkWriteSectors, if_neg hguard, if_neg hguard, if_pos hlarge,
      if_pos hlarge]
    constructor <;> intro heq <;> exact (Prod.mk.inj (Option.some.inj heq)).2 ▸ h
  have hdrv : drv.toNat < bus.drives.length := by
    by_contra hge
    exact hguard ((guards_iff hle h).mpr (Or.inl (Nat.le_of_not_lt hge)))
  have hd := List.getElem?_eq_getElem hdrv
  rw [vblkReadSectors, vblkWriteSectors, if_neg hguard, if_neg hguard, if_neg hlarge,
    if_neg hlarge]
  constructor
  · intro heq
    obtain ⟨⟨ok, t⟩, hissue, ht⟩ := Option.map_eq_some_iff.mp heq
    obtain ⟨-, rfl⟩ := Prod.mk.inj ht
    exact h.issue hd hissue
  · intro heq
    obtain ⟨⟨ok, t⟩, hissue, ht⟩ := Option.map_eq_some_iff.mp heq
    obtain ⟨-, rfl⟩ := Prod.mk.inj ht
    exact (h.dma _).issue hd hissue

section Owner

variable {drv count : UInt8} {lba : UInt64}

/-- A read of the drive that the queue was left to returns its sectors. -/
lemma vblkReadSectors_owner (hle : bus.drives.length ≤ maxVblk) (h : Stable bus s)
    (hd : bus.drives[drv.toNat]? = some k) (howner : bus.owner = some k)
    (h3 : 3 ≤ (bus.func k).queueSize.toNat) (hcount : count ≠ 0) (hfits : count.toNat ≤ vqMaxSize)
    (hlba : lba.toNat + count.toNat ≤ (bus.func k).capacity.toNat) :
    ∃ s', vblkReadSectors bus drv lba count s =
      some (some (Bytes.slice (s.dev k).disk (lba.toNat * 512) (count.toNat * 512)), s') := by
  obtain ⟨hlt, hok, hio⟩ := of_drives_eq_some hd
  have hready := (h.owned k howner).2.2.2 hok
  have hdrv : drv.toNat < bus.drives.length := (List.getElem?_eq_some_iff.mp hd).1
  have hguard : ¬(s.vblkNdrive % 256 ≤ drv.toNat ∨ count = 0) := by
    rw [guards_iff hle h]
    exact not_or.mpr ⟨Nat.not_le.mpr hdrv, hcount⟩
  obtain ⟨s₁, s', htype, hsector, -, hissue, -, -, hdma, -⟩ :=
    vblkIssue_carried hlt hio hready h3 blkIn lba (count.toNat * 512)
  have hexec : execute (bus.func k).capacity s₁ (s.dev k).disk (count.toNat * 512) =
      ((s.dev k).disk, Bytes.blit s₁.vblkDma 0 (Bytes.shift (s.dev k).disk (lba.toNat * 512))
        (count.toNat * 512), 0) := by
    rw [execute, hsector, htype, if_neg (by omega), if_pos rfl]
  rw [hexec] at hissue hdma
  refine ⟨s', ?_⟩
  rw [vblkReadSectors, if_neg hguard, if_neg (by omega), hissue]
  change some (some (Bytes.slice s'.vblkDma 0 (count.toNat * 512)), s') = _
  rw [hdma, Bytes.slice_blit_shift]

/-- A read of the drive that the queue was left to fails if the queue has no room for it. -/
lemma vblkReadSectors_small (hle : bus.drives.length ≤ maxVblk) (h : Stable bus s)
    (hd : bus.drives[drv.toNat]? = some k) (howner : bus.owner = some k)
    (h3 : ¬3 ≤ (bus.func k).queueSize.toNat) (hcount : count ≠ 0) (lba : UInt64) :
    ∃ s', vblkReadSectors bus drv lba count s = some (none, s') := by
  obtain ⟨hlt, hok, hio⟩ := of_drives_eq_some hd
  have hready := (h.owned k howner).2.2.2 hok
  have hdrv : drv.toNat < bus.drives.length := (List.getElem?_eq_some_iff.mp hd).1
  have hguard : ¬(s.vblkNdrive % 256 ≤ drv.toNat ∨ count = 0) := by
    rw [guards_iff hle h]
    exact not_or.mpr ⟨Nat.not_le.mpr hdrv, hcount⟩
  rw [vblkReadSectors, if_neg hguard]
  split_ifs
  · exact ⟨s, rfl⟩
  · obtain ⟨s', hissue, -⟩ := vblkIssue_small hlt hio hready h3 blkIn lba (count.toNat * 512)
    rw [hissue]
    exact ⟨s', rfl⟩

/-- A write to the drive that the queue was left to succeeds and stores the sectors, and no
other. -/
lemma vblkWriteSectors_owner (hle : bus.drives.length ≤ maxVblk) (h : Stable bus s)
    (hd : bus.drives[drv.toNat]? = some k) (howner : bus.owner = some k)
    (h3 : 3 ≤ (bus.func k).queueSize.toNat) (hcount : count ≠ 0) (hfits : count.toNat ≤ vqMaxSize)
    (hlba : lba.toNat + count.toNat ≤ (bus.func k).capacity.toNat) (buf : Bytes) :
    ∃ s', vblkWriteSectors bus drv lba count buf s = some (some [], s') ∧
      ∀ j, (s'.dev j).disk =
        if j = k then Bytes.blit (s.dev k).disk (lba.toNat * 512) buf (count.toNat * 512)
        else (s.dev j).disk := by
  obtain ⟨hlt, hok, hio⟩ := of_drives_eq_some hd
  have hready := ((h.dma (Bytes.blit s.vblkDma 0 buf (count.toNat * 512))).owned k howner).2.2.2 hok
  have hdrv : drv.toNat < bus.drives.length := (List.getElem?_eq_some_iff.mp hd).1
  have hguard : ¬(s.vblkNdrive % 256 ≤ drv.toNat ∨ count = 0) := by
    rw [guards_iff hle h]
    exact not_or.mpr ⟨Nat.not_le.mpr hdrv, hcount⟩
  obtain ⟨s₁, s', htype, hsector, hdma, hissue, -, -, -, hdev⟩ :=
    vblkIssue_carried hlt hio hready h3 blkOut lba (count.toNat * 512)
  have hne : blkOut ≠ blkIn := by decide
  have hexec : execute (bus.func k).capacity s₁ (s.dev k).disk (count.toNat * 512) =
      (Bytes.blit (s.dev k).disk (lba.toNat * 512) buf (count.toNat * 512), s₁.vblkDma, 0) := by
    rw [execute, hsector, htype, if_neg (by omega), if_neg hne, if_pos rfl, hdma,
      Bytes.blit_congr fun i hi => Bytes.blit_start hi]
  rw [hexec] at hissue hdev
  refine ⟨s', ?_, fun j => ?_⟩
  · rw [vblkWriteSectors, if_neg hguard, if_neg (by omega)]
    dsimp only
    rw [hissue]
    rfl
  · rw [hdev]
    by_cases hj : j = k
    · rw [if_pos hj, hj, Function.update_self]
    · rw [if_neg hj, Function.update_of_ne hj]

/-- No write reaches the medium of another drive than the one that the queue was left to. -/
lemma vblkWriteSectors_other (hle : bus.drives.length ≤ maxVblk) (h : Stable bus s)
    (hd : bus.drives[drv.toNat]? = some k) (howner : bus.owner ≠ some k) (hcount : count ≠ 0)
    {buf : Bytes} {res : Option (List UInt8)} {s' : Vblk}
    (heq : vblkWriteSectors bus drv lba count buf s = some (res, s')) : s'.dev k = s.dev k := by
  have hdrv : drv.toNat < bus.drives.length := (List.getElem?_eq_some_iff.mp hd).1
  have hguard : ¬(s.vblkNdrive % 256 ≤ drv.toNat ∨ count = 0) := by
    rw [guards_iff hle h]
    exact not_or.mpr ⟨Nat.not_le.mpr hdrv, hcount⟩
  obtain ⟨o, ho, hlt, hio⟩ := owner_of_drives hd
  have hne : k ≠ o := fun hko => howner (hko ▸ ho)
  rw [vblkWriteSectors, if_neg hguard] at heq
  split_ifs at heq
  · rw [← (Prod.mk.inj (Option.some.inj heq)).2]
  · obtain ⟨⟨ok, t⟩, hissue, ht⟩ := Option.map_eq_some_iff.mp heq
    obtain ⟨-, rfl⟩ := Prod.mk.inj ht
    exact vblkIssue_dev hlt hio
      (s := { s with vblkDma := Bytes.blit s.vblkDma 0 buf (count.toNat * 512) })
      (h.owned o ho).2.2.1 hissue hne

end Owner

/-- The request was notified to the device of its drive and carried out by it, and by no other. -/
def Carried (bus : VirtioBus) (r : VblkReq) (o : Option VblkOutcome) : Prop :=
  ∃ out, o = some out ∧ out.notified = r.target bus ∧ out.served = r.target bus

/-- A request that gets as far as the queue notifies the device that the queue was left to. -/
lemma handle_notified {o : ℕ} (hn : s.vblkNdrive = bus.drives.length)
    (hle : bus.drives.length ≤ maxVblk) (ho : o < bus.funcs.length) (hio : (bus.func o).isIo)
    (hbase : s.vqIoBase = (bus.func o).ioBase) (hr : r.Effective bus)
    {out : VblkOutcome} {s' : Vblk}
    (h : handle bus s r = some (out, s')) :
    out.notified = [o] ∧ s'.vqIoBase = s.vqIoBase ∧ s'.vblkNdrive = s.vblkNdrive := by
  obtain ⟨type, lba, len, g, f, hg, heq⟩ := handle_of_effective hn hle hr
  rw [heq, Option.map_eq_some_iff] at h
  obtain ⟨⟨ok, t⟩, hissue, ht⟩ := h
  obtain ⟨rfl, rfl⟩ := Prod.mk.inj ht
  rw [hg] at hissue
  exact vblkIssue_notified ho hio
    (s := { s.clear with vblkDma := (g s.clear).vblkDma }) hbase hissue

/-- Every request leaves the queue as it was. -/
lemma Stable.handle (hle : bus.drives.length ≤ maxVblk) (h : Stable bus s) {out : VblkOutcome}
    {s' : Vblk} (heq : Vblk.handle bus s r = some (out, s')) : Stable bus s' := by
  obtain ⟨⟨reply, t⟩, hres, ht⟩ := Option.map_eq_some_iff.mp heq
  obtain ⟨-, rfl⟩ := Prod.mk.inj ht
  cases r with
  | read drv lba count => exact (h.clear.sectors hle drv lba count Bytes.zeros).1 hres
  | write drv lba count buf => exact (h.clear.sectors hle drv lba count buf).2 hres

/-- A request to the device that the queue was left to is carried out by it if the queue has
room. -/
lemma handle_owner (hle : bus.drives.length ≤ maxVblk) (h : Stable bus s) (heff : r.Effective bus)
    (hk : bus.drives[r.drv.toNat]? = some k) (howner : bus.owner = some k) :
    ∃ out s', handle bus s r = some (out, s') ∧ out.notified = [k] ∧
      out.served = if 3 ≤ (bus.func k).queueSize.toNat then [k] else [] := by
  obtain ⟨hlt, hok, hio⟩ := of_drives_eq_some hk
  have hready := (h.clear.owned k howner).2.2.2 hok
  obtain ⟨type, lba, len, g, f, hg, heq⟩ := handle_of_effective h.ndrive hle heff
  have hg' : Ready bus (g s.clear) k := by
    rw [hg]
    exact ⟨hready.base, hready.status, hready.pfn, hready.seen, hready.head, hready.used,
      hready.size, hready.size_ne⟩
  obtain ⟨ok, t, hissue, -, hserved⟩ := vblkIssue_ready hlt hio hg' type lba len
  obtain ⟨hnotified, -⟩ := vblkIssue_notified hlt hio hg'.base hissue
  rw [hg] at hnotified hserved
  exact ⟨_, t, by rw [heq, hissue]; rfl, hnotified, hserved⟩

lemma target_eq (heff : r.Effective bus) (hk : bus.drives[r.drv.toNat]? = some k) :
    r.target bus = [k] := by
  rw [VblkReq.target, if_pos heff, hk]
  rfl

/-- A request to a drive that the queue serves is carried out by its device. -/
lemma handle_ready (hle : bus.drives.length ≤ maxVblk) (h : Stable bus s)
    (hr : r.Effective bus → bus.Serves r.drv.toNat) :
    ∃ out s', handle bus s r = some (out, s') ∧ Carried bus r (some out) ∧ Stable bus s' := by
  by_cases heff : r.Effective bus
  · obtain ⟨k, hk⟩ : ∃ k, bus.drives[r.drv.toNat]? = some k :=
      ⟨_, List.getElem?_eq_getElem heff.1⟩
    obtain ⟨howner, h3⟩ := (VirtioBus.serves_iff hk).mp (hr heff)
    obtain ⟨out, s', heq, hnotified, hserved⟩ := handle_owner hle h heff hk howner
    have htarget := target_eq heff hk
    rw [if_pos h3] at hserved
    exact ⟨out, s', heq, ⟨out, rfl, hnotified.trans htarget.symm, hserved.trans htarget.symm⟩,
      h.handle hle heq⟩
  · have htarget : r.target bus = [] := if_neg heff
    exact ⟨_, _, handle_of_not_effective h.ndrive hle heff, ⟨_, rfl, htarget.symm, htarget.symm⟩,
      h.clear⟩

/-- The replies to the requests for drive `j` in a run. -/
def repliesTo (bus : VirtioBus) (s : Vblk) (reqs : List VblkReq) (j : UInt8) :
    List (Option (Option (List UInt8))) :=
  ((reqs.zip (runReqs bus s reqs)).filter fun p => p.1.drv = j).map fun p =>
    p.2.map VblkOutcome.reply

/-- No drive stands for another: every request is carried out by the device of its own drive, and
the replies to the requests for a drive are what they would be without the other requests. -/
structure Isolated (bus : VirtioBus) (s : Vblk) (reqs : List VblkReq) : Prop where
  carried : List.Forall₂ (Carried bus) reqs (runReqs bus s reqs)
  separate : ∀ j, repliesTo bus s reqs j =
    (runReqs bus s (reqs.filter fun r => r.drv = j)).map (Option.map VblkOutcome.reply)

/-- Every request that gets as far as the queue is for the drive that the queue was left to, and the
queue has room for it. -/
def OnOwner (bus : VirtioBus) (reqs : List VblkReq) : Prop :=
  ∀ r ∈ reqs, r.Effective bus → bus.Serves r.drv.toNat

lemma runReqs_cons {out : VblkOutcome} {s' : Vblk} (h : handle bus s r = some (out, s'))
    (reqs : List VblkReq) : runReqs bus s (r :: reqs) = some out :: runReqs bus s' reqs := by
  rw [runReqs, h]

lemma repliesTo_cons {out : VblkOutcome} {s' : Vblk} (h : handle bus s r = some (out, s'))
    (reqs : List VblkReq) (j : UInt8) :
    repliesTo bus s (r :: reqs) j =
      if r.drv = j then some out.reply :: repliesTo bus s' reqs j else repliesTo bus s' reqs j := by
  rw [repliesTo, runReqs_cons h, List.zip_cons_cons, List.filter_cons]
  split_ifs with h₁ h₂ h₂
  · rfl
  · exact absurd (by simpa using h₁) h₂
  · exact absurd (by simpa using h₂) h₁
  · rfl

lemma carried_run (hle : bus.drives.length ≤ maxVblk) {reqs : List VblkReq} (h : Stable bus s)
    (hon : OnOwner bus reqs) : List.Forall₂ (Carried bus) reqs (runReqs bus s reqs) := by
  induction reqs generalizing s with
  | nil => exact List.Forall₂.nil
  | cons r reqs ih =>
    obtain ⟨out, s', heq, hc, h'⟩ := handle_ready hle h (hon r List.mem_cons_self)
    rw [runReqs_cons heq]
    exact List.Forall₂.cons hc (ih h' fun q hq => hon q (List.mem_cons_of_mem _ hq))

/-- A drive whose requests alone reach the queue gets the same replies without the other
requests. -/
lemma repliesTo_owner (hle : bus.drives.length ≤ maxVblk) {reqs : List VblkReq} (j : UInt8)
    (hon : OnOwner bus reqs) (hj : ∀ r ∈ reqs, r.drv ≠ j → ¬r.Effective bus) (h : Stable bus s)
    {t : Vblk} (ht : t.clear = s.clear) :
    repliesTo bus s reqs j =
      (runReqs bus t (reqs.filter fun r => r.drv = j)).map (Option.map VblkOutcome.reply) := by
  induction reqs generalizing s t with
  | nil => rfl
  | cons r reqs ih =>
    obtain ⟨out, s', heq, -, h'⟩ := handle_ready hle h (hon r List.mem_cons_self)
    have hon' : OnOwner bus reqs := fun q hq => hon q (List.mem_cons_of_mem _ hq)
    have hj' : ∀ q ∈ reqs, q.drv ≠ j → ¬q.Effective bus :=
      fun q hq => hj q (List.mem_cons_of_mem _ hq)
    rw [repliesTo_cons heq]
    by_cases hrj : r.drv = j
    · have heq' : handle bus t r = some (out, s') := by
        rw [show handle bus t r = handle bus t.clear r from rfl, ht]
        exact heq
      rw [if_pos hrj, List.filter_cons_of_pos (by simpa using hrj),
        runReqs_cons heq', List.map_cons, ih hon' hj' h' rfl]
      rfl
    · have hsame : s' = s.clear := by
        rw [handle_of_not_effective h.ndrive hle (hj r List.mem_cons_self hrj)] at heq
        exact (Prod.mk.inj (Option.some.inj heq)).2.symm
      rw [if_neg hrj, List.filter_cons_of_neg (by simpa using hrj)]
      exact ih hon' hj' h' (ht.trans (by rw [hsame]; rfl))

/-- A drive whose requests do not reach the queue gets the replies of a driver without a queue. -/
lemma repliesTo_other (hle : bus.drives.length ≤ maxVblk) {reqs : List VblkReq} (j : UInt8)
    (hon : OnOwner bus reqs) (hj : ∀ r ∈ reqs, r.drv = j → ¬r.Effective bus) (h : Stable bus s)
    {t : Vblk} (ht : Stable bus t) :
    repliesTo bus s reqs j =
      (runReqs bus t (reqs.filter fun r => r.drv = j)).map (Option.map VblkOutcome.reply) := by
  induction reqs generalizing s t with
  | nil => rfl
  | cons r reqs ih =>
    obtain ⟨out, s', heq, -, h'⟩ := handle_ready hle h (hon r List.mem_cons_self)
    have hon' : OnOwner bus reqs := fun q hq => hon q (List.mem_cons_of_mem _ hq)
    have hj' : ∀ q ∈ reqs, q.drv = j → ¬q.Effective bus :=
      fun q hq => hj q (List.mem_cons_of_mem _ hq)
    rw [repliesTo_cons heq]
    by_cases hrj : r.drv = j
    · have hno := hj r List.mem_cons_self hrj
      have heq' := handle_of_not_effective ht.ndrive hle hno
      rw [handle_of_not_effective h.ndrive hle hno] at heq
      obtain ⟨rfl, -⟩ := Prod.mk.inj (Option.some.inj heq)
      rw [if_pos hrj, List.filter_cons_of_pos (by simpa using hrj),
        runReqs_cons heq', List.map_cons, ih hon' hj' h' ht.clear]
      rfl
    · rw [if_neg hrj, List.filter_cons_of_neg (by simpa using hrj)]
      exact ih hon' hj' h' ht

/-- Requests that are all carried out by the devices of their drives are on the queue's drive. -/
lemma onOwner_of_carried (hle : bus.drives.length ≤ maxVblk) {reqs : List VblkReq}
    (h : Stable bus s)
    (hc : List.Forall₂ (Carried bus) reqs (runReqs bus s reqs)) : OnOwner bus reqs := by
  induction reqs generalizing s with
  | nil => exact fun r hr => absurd hr List.not_mem_nil
  | cons r reqs ih =>
    have hbase : ∀ o, bus.owner = some o → s.vqIoBase = (bus.func o).ioBase :=
      fun o ho => (h.owned o ho).2.2.1
    cases heq : handle bus s r with
    | none =>
      rw [runReqs, heq] at hc
      obtain ⟨⟨out, hout, -⟩, -⟩ := List.forall₂_cons.mp hc
      cases hout
    | some p =>
      obtain ⟨out, s'⟩ := p
      rw [runReqs_cons heq] at hc
      obtain ⟨⟨out', hout, hnotified, hserved⟩, hrest⟩ := List.forall₂_cons.mp hc
      obtain rfl := Option.some.inj hout
      intro q hq
      rcases List.mem_cons.mp hq with rfl | hq
      · intro heff
        obtain ⟨k, hk⟩ : ∃ k, bus.drives[q.drv.toNat]? = some k :=
          ⟨_, List.getElem?_eq_getElem heff.1⟩
        obtain ⟨o, ho, hlt, hio⟩ := owner_of_drives hk
        -- the device that is notified is the one of the queue, so the drive is that of the queue
        obtain ⟨hone, -⟩ := handle_notified h.ndrive hle hlt hio (hbase o ho) heff heq
        rw [target_eq heff hk] at hnotified hserved
        obtain rfl : o = k := List.singleton_inj.mp (hone.symm.trans hnotified)
        obtain ⟨out', t, heq', -, hserved'⟩ := handle_owner hle h heff hk ho
        obtain ⟨rfl, -⟩ := Prod.mk.inj (Option.some.inj (heq.symm.trans heq'))
        refine (VirtioBus.serves_iff hk).mpr ⟨ho, ?_⟩
        by_contra h3
        rw [hserved', if_neg h3] at hserved
        cases hserved
      · exact ih (h.handle hle heq) hrest q hq

/-- The drives of a run are kept apart exactly when each request that gets as far as the queue names
the drive of the last device with an I/O window that `vblk_init` tried to set up, and the queue of
that device has three descriptors or more. -/
theorem isolated_iff (bus : VirtioBus) (dev : ℕ → VirtioDev) (reqs : List VblkReq) :
    Isolated bus (vblkInit bus (boot dev)) reqs ↔ OnOwner bus reqs := by
  obtain ⟨-, hn, hle, hown⟩ := vblkInit_spec bus dev
  have h : Stable bus (vblkInit bus (boot dev)) := ⟨hn, hown⟩
  refine ⟨fun hiso => onOwner_of_carried hle h hiso.carried,
    fun hon => ⟨carried_run hle h hon, fun j => ?_⟩⟩
  by_cases hj : bus.drives[j.toNat]? = bus.owner
  · refine repliesTo_owner hle j hon (fun r hr hne heff => hne ?_) h rfl
    have hdrives := (hon r hr heff).1.trans hj.symm
    have hlt := heff.1
    have hidx := (List.getElem?_inj hlt (nodup_drives bus)).mp hdrives
    exact UInt8.toNat_inj.mp hidx
  · refine repliesTo_other hle j hon (fun r hr heq heff => hj ?_) h h
    exact heq ▸ (hon r hr heff).1

/-- Two devices with a queue of 128 entries each. -/
def twoDisks : VirtioBus where
  funcs := [⟨0xC001, 128, 16⟩, ⟨0xC041, 128, 16⟩]
  windows := by
    intro i j f g hi hj _ _ hbase
    match i, j with
    | 0, 0 | 1, 1 => rfl
    | 0, 1 | 1, 0 =>
      obtain rfl := Option.some.inj hi
      obtain rfl := Option.some.inj hj
      exact absurd hbase (by decide)
    | _ + 2, _ => simp at hi
    | _, _ + 2 => simp at hj

/-- A read of the first drive of two goes to the second device. -/
theorem not_isolated_first_drive :
    ¬Isolated twoDisks (vblkInit twoDisks (boot fun _ => ⟨Bytes.zeros, 0, 0, 0⟩))
    [.read 0 0 1] := by
  intro hiso
  obtain ⟨-, hn, hle, hown⟩ := vblkInit_spec twoDisks fun _ => ⟨Bytes.zeros, 0, 0, 0⟩
  have howner := onOwner_of_carried hle ⟨hn, hown⟩ hiso.carried (.read 0 0 1)
    List.mem_cons_self (by decide)
  exact absurd howner (by decide)

end Vblk

end CoolFrost

import CoolFrost.Lib.Buffer
import CoolFrost.Lib.RingBuffer

/-!
# The byte ring buffer

`libc/ringbuf.h`.  `head` and `tail` run freely and wrap around with the machine word; they are
masked only where a byte is accessed, and the number of bytes kept is their difference.  Since the
capacity is a power of two it divides the range of the word, so that the masked indices are those of
a ring buffer in the sense of `Lib/RingBuffer`.
-/

namespace CoolFrost

open Program

/-- `ringbuf_t`. -/
structure Ringbuf where
  buf : Bytes
  cap : UInt64
  head : UInt64
  tail : UInt64

namespace Ringbuf

/-! ## The functions -/

/-- `ringbuf_empty`. -/
def ringbufEmpty (rb : Ringbuf) : Bool := rb.head = rb.tail

/-- `ringbuf_full`. -/
def ringbufFull (rb : Ringbuf) : Bool := rb.tail - rb.head = rb.cap

/-- `ringbuf_len`. -/
def ringbufLen (rb : Ringbuf) : UInt64 := rb.tail - rb.head

/-- `ringbuf_space`. -/
def ringbufSpace (rb : Ringbuf) : UInt64 := rb.cap - (rb.tail - rb.head)

/-- The masked index. -/
def slot (rb : Ringbuf) (i : UInt64) : ℕ := (i &&& (rb.cap - 1)).toNat

/-- Read the slot of an index. -/
def loadSlot (i : UInt64) : Program Ringbuf UInt8 := do
  let rb ← get
  loadByte rb.cap.toNat rb.buf (rb.slot i)

/-- Write the slot of an index. -/
def storeSlot (i : UInt64) (byte : UInt8) : Program Ringbuf PUnit := do
  let rb ← get
  inside rb.cap.toNat (rb.slot i) 1
  modify fun rb => { rb with buf := Function.update rb.buf (rb.slot i) byte }

/-- `ringbuf_push`. -/
def ringbufPush (byte : UInt8) : Program Ringbuf ℤ := do
  let rb ← get
  if rb.ringbufFull then return -1
  else
    storeSlot rb.tail byte
    modify fun rb => { rb with tail := rb.tail + 1 }
    return 0

/-- `ringbuf_pop`; without a byte in `*out` it returns -1. -/
def ringbufPop : Program Ringbuf (Option UInt8) := do
  let rb ← get
  if rb.ringbufEmpty then return none
  else
    let out ← loadSlot rb.head
    modify fun rb => { rb with head := rb.head + 1 }
    return some out

/-- `ringbuf_peek`. -/
def ringbufPeek : Program Ringbuf (Option UInt8) := do
  let rb ← get
  if rb.ringbufEmpty then return none
  else return some (← loadSlot rb.head)

/-- `ringbuf_peek_at`. -/
def ringbufPeekAt (k : UInt64) : Program Ringbuf (Option UInt8) := do
  let rb ← get
  if rb.ringbufLen ≤ k then return none
  else return some (← loadSlot (rb.head + k))

/-- `ringbuf_write`. -/
def ringbufWrite (src : Bytes) (n : UInt64) : Program Ringbuf UInt64 :=
  iter (fun (i : UInt64) => do
    let rb ← get
    if i < n ∧ rb.ringbufFull = false then
      let _ ← ringbufPush (src i.toNat)
      return .inl (i + 1)
    else return .inr i) (n.toNat + 1) 0

/-- `ringbuf_read`: the number of bytes, and the caller's buffer. -/
def ringbufRead (dst : Bytes) (n : UInt64) : Program Ringbuf (UInt64 × Bytes) :=
  iter (fun (v : UInt64 × Bytes) => do
    let rb ← get
    if v.1 < n ∧ rb.ringbufEmpty = false then
      match ← ringbufPop with
      | some byte => return .inl (v.1 + 1, Function.update v.2 v.1.toNat byte)
      | none => return .inl (v.1 + 1, v.2)
    else return .inr v) (n.toNat + 1) (0, dst)

/-- `ringbuf_discard`. -/
def ringbufDiscard (n : UInt64) : Program Ringbuf UInt64 := do
  let rb ← get
  let avail := rb.ringbufLen
  let n := if avail < n then avail else n
  modify fun rb => { rb with head := rb.head + n }
  return n

/-- `ringbuf_clear`. -/
def ringbufClear : Program Ringbuf PUnit := modify fun rb => { rb with head := 0, tail := 0 }

/-! ## Calls -/

/-- A call of one of the functions. -/
inductive Call
  | push (byte : UInt8)
  | pop
  | peek
  | peekAt (k : UInt64)
  | write (src : Bytes) (n : UInt64)
  | read (dst : Bytes) (n : UInt64)
  | discard (n : UInt64)
  | clear

/-- What a call gives: a return code, a byte or -1, a number of bytes, or a number of bytes and the
buffer with them. -/
inductive Result
  | code (r : ℤ)
  | byte (b : Option UInt8)
  | count (n : UInt64)
  | bytes (n : UInt64) (dst : Bytes)
  | nothing

/-- Make a call. -/
def call : Call → Program Ringbuf Result
  | .push byte => .code <$> ringbufPush byte
  | .pop => .byte <$> ringbufPop
  | .peek => .byte <$> ringbufPeek
  | .peekAt k => .byte <$> ringbufPeekAt k
  | .write src n => .count <$> ringbufWrite src n
  | .read dst n => (fun r => .bytes r.1 r.2) <$> ringbufRead dst n
  | .discard n => .count <$> ringbufDiscard n
  | .clear => (fun _ => .nothing) <$> ringbufClear

/-- What can be seen of a call: its result, and afterwards the length, the free space and whether
the buffer is empty or full. -/
structure Seen where
  result : Result
  len : UInt64
  space : UInt64
  empty : Bool
  full : Bool

/-- Make one call after the other. -/
def run : List Call → Program Ringbuf (List Seen)
  | [] => return []
  | c :: calls => do
    let result ← call c
    let rb ← get
    let rest ← run calls
    return ⟨result, rb.ringbufLen, rb.ringbufSpace, rb.ringbufEmpty, rb.ringbufFull⟩ :: rest

/-! ## The bounded queue -/

/-- What a call is for: the queue of at most `cap` bytes, oldest byte first. -/
def fifo (cap : ℕ) (q : List UInt8) : Call → Result × List UInt8
  | .push byte => if q.length < cap then (.code 0, q ++ [byte]) else (.code (-1), q)
  | .pop => (.byte q.head?, q.tail)
  | .peek => (.byte q.head?, q)
  | .peekAt k => (.byte q[k.toNat]?, q)
  | .write src n =>
    let m := min n.toNat (cap - q.length)
    (.count (.ofNat m), q ++ src.slice 0 m)
  | .read dst n =>
    let m := min n.toNat q.length
    (.bytes (.ofNat m) (dst.blit 0 (.ofList q) m), q.drop m)
  | .discard n =>
    let m := min n.toNat q.length
    (.count (.ofNat m), q.drop m)
  | .clear => (.nothing, [])

/-- What is to be seen of a sequence of calls, and the queue after it. -/
def fifoRun (cap : ℕ) : List UInt8 → List Call → List Seen × List UInt8
  | q, [] => ([], q)
  | q, c :: calls =>
    let q' := (fifo cap q c).2
    let rest := fifoRun cap q' calls
    (⟨(fifo cap q c).1, .ofNat q'.length, .ofNat (cap - q'.length), q'.length = 0,
      q'.length = cap⟩ ::
      rest.1, rest.2)

/-! ## The indices -/

/-- The ring buffer behind the masked indices. -/
def view (rb : Ringbuf) : RingBuf UInt8 :=
  ⟨rb.buf, rb.slot rb.head, rb.slot rb.tail, rb.ringbufLen.toNat⟩

/-- A ring buffer of the capacity `cap` that keeps the queue `q`. -/
structure Holds (cap : UInt64) (q : List UInt8) (rb : Ringbuf) : Prop where
  cap_eq : rb.cap = cap
  pow : cap.toNat.isPowerOfTwo
  ok : rb.view.Ok cap.toNat
  queue : rb.view.toList cap.toNat = q

variable {cap : UInt64} {rb : Ringbuf} {q : List UInt8} {i j n k : UInt64} {src dst : Bytes}
  {byte : UInt8}

/-- The capacity divides the range of the word. -/
lemma cap_dvd (h : cap.toNat.isPowerOfTwo) : cap.toNat ∣ 2 ^ 64 := by
  obtain ⟨e, he⟩ := h
  rw [he]
  refine Nat.pow_dvd_pow 2 ?_
  have hlt := cap.toNat_lt
  rw [he] at hlt
  exact (Nat.pow_lt_pow_iff_right (by decide)).mp hlt |>.le

/-- The mask is a remainder. -/
lemma slot_eq (h : rb.cap.toNat.isPowerOfTwo) : rb.slot i = i.toNat % rb.cap.toNat := by
  have hpos := Nat.pos_of_isPowerOfTwo h
  have hmask : (rb.cap - 1).toNat = rb.cap.toNat - 1 := UInt64.toNat_sub_of_le _ _ hpos
  obtain ⟨e, he⟩ := h
  rw [slot, UInt64.toNat_and, hmask, he, Nat.and_two_pow_sub_one_eq_mod]

lemma slot_lt (h : rb.cap.toNat.isPowerOfTwo) : rb.slot i < rb.cap.toNat := by
  rw [slot_eq h]
  exact Nat.mod_lt _ (Nat.pos_of_isPowerOfTwo h)

/-- Going on from an index, around the word or not. -/
lemma slot_add (h : rb.cap.toNat.isPowerOfTwo) :
    rb.slot (i + j) = (rb.slot i + j.toNat) % rb.cap.toNat := by
  rw [slot_eq h, slot_eq h, UInt64.toNat_add, Nat.mod_mod_of_dvd _ (cap_dvd h), Nat.mod_add_mod]

/-- The masked indices fit together. -/
lemma view_ok (h : rb.cap.toNat.isPowerOfTwo) (hle : rb.ringbufLen.toNat ≤ rb.cap.toNat) :
    rb.view.Ok rb.cap.toNat := by
  refine ⟨slot_lt h, hle, ?_⟩
  have htail : rb.head + rb.ringbufLen = rb.tail := by
    rw [ringbufLen, UInt64.add_comm, UInt64.sub_add_cancel]
  change rb.slot rb.tail = (rb.slot rb.head + rb.ringbufLen.toNat) % rb.cap.toNat
  rw [← slot_add h, htail]

/-- Equal indices stand for the empty queue. -/
lemma holds_empty (h : cap.toNat.isPowerOfTwo) (buf : Bytes) (i : UInt64) :
    Holds cap [] ⟨buf, cap, i, i⟩ := by
  have hlen : (ringbufLen ⟨buf, cap, i, i⟩).toNat = 0 := by
    rw [ringbufLen, UInt64.sub_self]
    rfl
  refine ⟨rfl, h, view_ok h (hlen.trans_le (Nat.zero_le _)), ?_⟩
  rw [← List.length_eq_zero_iff, RingBuf.length_toList]
  exact hlen

lemma Holds.len (h : Holds cap q rb) : rb.ringbufLen.toNat = q.length := by
  rw [← h.queue, RingBuf.length_toList]
  rfl

lemma Holds.length_le (h : Holds cap q rb) : q.length ≤ cap.toNat := by
  rw [← h.len]
  exact h.ok.size_le

lemma Holds.slot_lt (h : Holds cap q rb) : rb.slot i < rb.cap.toNat :=
  Ringbuf.slot_lt (by rw [h.cap_eq]; exact h.pow)

lemma Holds.ringbufLen_eq (h : Holds cap q rb) : rb.ringbufLen = .ofNat q.length := by
  rw [← h.len, UInt64.ofNat_toNat]

lemma Holds.ringbufSpace_eq (h : Holds cap q rb) :
    rb.ringbufSpace = .ofNat (cap.toNat - q.length) := by
  have hle := h.length_le
  have hsub : (cap - rb.ringbufLen).toNat = cap.toNat - q.length := by
    rw [UInt64.toNat_sub_of_le _ _ (by rw [UInt64.le_iff_toNat_le, h.len]; exact hle), h.len]
  rw [← hsub, UInt64.ofNat_toNat, ← h.cap_eq]
  rfl

lemma Holds.ringbufFull_eq (h : Holds cap q rb) :
    rb.ringbufFull = decide (q.length = cap.toNat) := by
  rw [ringbufFull, decide_eq_decide, ← h.len, ← UInt64.toNat_inj, h.cap_eq]
  rfl

lemma Holds.ringbufEmpty_eq (h : Holds cap q rb) : rb.ringbufEmpty = decide (q.length = 0) := by
  have hzero : rb.ringbufLen = 0 ↔ rb.tail = rb.head := by
    rw [ringbufLen, UInt64.sub_eq_iff_eq_add, UInt64.zero_add]
  rw [ringbufEmpty, decide_eq_decide, ← h.len, eq_comm, ← hzero, ← UInt64.toNat_inj]
  rfl

/-! ## One byte -/

lemma wp_loadSlot (h : Holds cap q rb) (Q : UInt8 → Ringbuf → Prop) :
    wp (loadSlot i) Q rb ↔ Q (rb.buf (rb.slot i)) rb := by
  rw [loadSlot, wp_bind, wp_get, wp_loadByte, and_iff_right h.slot_lt]

lemma wp_storeSlot (h : Holds cap q rb) (Q : PUnit → Ringbuf → Prop) :
    wp (storeSlot i byte) Q rb ↔
      Q PUnit.unit { rb with buf := Function.update rb.buf (rb.slot i) byte } := by
  rw [storeSlot, wp_bind, wp_get, wp_bind, wp_inside, wp_modify,
    and_iff_right (Nat.succ_le_of_lt h.slot_lt)]

/-- The byte at an index, counted from the head. -/
lemma Holds.getElem? (h : Holds cap q rb) (hk : k.toNat < q.length) :
    q[k.toNat]? = some (rb.buf (rb.slot (rb.head + k))) := by
  have hpow : rb.cap.toNat.isPowerOfTwo := by rw [h.cap_eq]; exact h.pow
  have hget := RingBuf.getElem?_toList (n := cap.toNat) (r := rb.view) (i := k.toNat)
    (by rw [← h.len] at hk; exact hk)
  rw [h.queue] at hget
  rw [hget, slot_add hpow, h.cap_eq]
  rfl

lemma Holds.head? (h : Holds cap q rb) (hq : q.length ≠ 0) :
    q.head? = some (rb.buf (rb.slot rb.head)) := by
  have hget := h.getElem? (k := 0) (Nat.pos_of_ne_zero hq)
  rwa [UInt64.add_zero, UInt64.toNat_zero, ← List.head?_eq_getElem?] at hget

/-- A byte behind the last one. -/
lemma Holds.push (h : Holds cap q rb) (hq : q.length < cap.toNat) :
    Holds cap (q ++ [byte])
      { rb with buf := Function.update rb.buf (rb.slot rb.tail) byte, tail := rb.tail + 1 } := by
  have hpow : rb.cap.toNat.isPowerOfTwo := by rw [h.cap_eq]; exact h.pow
  have hsize : rb.view.size < cap.toNat := h.len.trans_lt hq
  have hlt := cap.toNat_lt
  have hlen : (rb.tail + 1 - rb.head).toNat = rb.ringbufLen.toNat + 1 := by
    have hcomm : rb.tail + 1 - rb.head = rb.ringbufLen + 1 := by
      rw [UInt64.sub_eq_iff_eq_add, ringbufLen, UInt64.add_assoc, UInt64.add_comm 1,
        ← UInt64.add_assoc, UInt64.sub_add_cancel]
    rw [hcomm, UInt64.toNat_add, h.len]
    exact Nat.mod_eq_of_lt (by rw [UInt64.toNat_one]; omega)
  have hview :
      view { rb with buf := Function.update rb.buf (rb.slot rb.tail) byte, tail := rb.tail + 1 } =
        rb.view.push cap.toNat byte := by
    rw [RingBuf.push, if_neg (not_le.mpr hsize)]
    refine congrArg₂ (RingBuf.mk _ _) ?_ hlen
    rw [← h.cap_eq]
    exact slot_add hpow
  refine ⟨h.cap_eq, h.pow, ?_, ?_⟩
  · rw [hview]
    exact RingBuf.push_ok h.ok hsize byte
  · rw [hview, RingBuf.toList_push h.ok hsize byte, h.queue]

/-- The oldest bytes are given up. -/
lemma Holds.drop (h : Holds cap q rb) (hn : n.toNat ≤ q.length) :
    Holds cap (q.drop n.toNat) { rb with head := rb.head + n } := by
  have hpow : rb.cap.toNat.isPowerOfTwo := by rw [h.cap_eq]; exact h.pow
  have hlen : (rb.tail - (rb.head + n)).toNat = rb.ringbufLen.toNat - n.toNat := by
    have hcomm : rb.tail - (rb.head + n) = rb.ringbufLen - n := by
      rw [UInt64.sub_eq_iff_eq_add, UInt64.add_comm rb.head, ← UInt64.add_assoc,
        UInt64.sub_add_cancel, ringbufLen, UInt64.sub_add_cancel]
    rw [hcomm, UInt64.toNat_sub_of_le _ _ (by rw [UInt64.le_iff_toNat_le, h.len]; exact hn)]
  have hview : view { rb with head := rb.head + n } = rb.view.drop cap.toNat n.toNat := by
    rw [RingBuf.drop, view, ← h.cap_eq]
    exact RingBuf.mk.injEq .. ▸ ⟨rfl, slot_add hpow, rfl, hlen⟩
  refine ⟨h.cap_eq, h.pow, ?_, ?_⟩
  · rw [hview]
    exact RingBuf.drop_ok h.ok (hn.trans_eq h.len.symm)
  · rw [hview, RingBuf.toList_drop, h.queue]

/-- `ringbuf_push`, when there is room. -/
lemma wp_ringbufPush (h : Holds cap q rb) (hq : q.length < cap.toNat) :
    wp (ringbufPush byte) (fun r rb' => r = 0 ∧ Holds cap (q ++ [byte]) rb') rb := by
  have hfull : rb.ringbufFull ≠ true := by
    rw [h.ringbufFull_eq, ne_eq, decide_eq_true_iff]
    exact hq.ne
  rw [ringbufPush, wp_bind, wp_get, if_neg hfull]
  rw [wp_bind, wp_storeSlot h, wp_bind, wp_modify, wp_pure]
  exact ⟨rfl, h.push hq⟩

/-- `ringbuf_push`, when there is none. -/
lemma wp_ringbufPush_full (h : Holds cap q rb) (hq : q.length = cap.toNat) :
    wp (ringbufPush byte) (fun r rb' => r = -1 ∧ Holds cap q rb') rb := by
  have hfull : rb.ringbufFull = true := by
    rw [h.ringbufFull_eq, decide_eq_true_iff]
    exact hq
  rw [ringbufPush, wp_bind, wp_get, if_pos hfull, wp_pure]
  exact ⟨rfl, h⟩

/-- `ringbuf_pop`. -/
lemma wp_ringbufPop (h : Holds cap q rb) :
    wp ringbufPop (fun r rb' => r = q.head? ∧ Holds cap q.tail rb') rb := by
  rw [ringbufPop, wp_bind, wp_get, h.ringbufEmpty_eq]
  refine wp_ite_intro (fun hq => ?_) fun hq => ?_
  · obtain rfl := List.length_eq_zero_iff.mp (of_decide_eq_true hq)
    rw [wp_pure]
    exact ⟨rfl, h⟩
  · have hne : q.length ≠ 0 := fun hzero => hq (decide_eq_true hzero)
    rw [wp_bind, wp_loadSlot h, wp_bind, wp_modify, wp_pure]
    refine ⟨(h.head? hne).symm, ?_⟩
    have hdrop := h.drop (n := 1) (Nat.one_le_iff_ne_zero.mpr hne)
    rwa [UInt64.toNat_one, List.drop_one] at hdrop

/-- `ringbuf_peek`. -/
lemma wp_ringbufPeek (h : Holds cap q rb) :
    wp ringbufPeek (fun r rb' => r = q.head? ∧ Holds cap q rb') rb := by
  rw [ringbufPeek, wp_bind, wp_get, h.ringbufEmpty_eq]
  refine wp_ite_intro (fun hq => ?_) fun hq => ?_
  · obtain rfl := List.length_eq_zero_iff.mp (of_decide_eq_true hq)
    rw [wp_pure]
    exact ⟨rfl, h⟩
  · rw [wp_bind, wp_loadSlot h, wp_pure]
    exact ⟨(h.head? fun hzero => hq (decide_eq_true hzero)).symm, h⟩

/-- `ringbuf_peek_at`. -/
lemma wp_ringbufPeekAt (h : Holds cap q rb) :
    wp (ringbufPeekAt k) (fun r rb' => r = q[k.toNat]? ∧ Holds cap q rb') rb := by
  rw [ringbufPeekAt, wp_bind, wp_get]
  refine wp_ite_intro (fun hk => ?_) fun hk => ?_
  · rw [UInt64.le_iff_toNat_le, h.len] at hk
    rw [wp_pure]
    exact ⟨(List.getElem?_eq_none hk).symm, h⟩
  · rw [UInt64.le_iff_toNat_le, h.len] at hk
    rw [wp_bind, wp_loadSlot h, wp_pure]
    exact ⟨(h.getElem? (not_le.mp hk)).symm, h⟩

/-! ## Many bytes -/

/-- An index that is still below another one goes up by one. -/
lemma toNat_succ (h : i < n) : (i + 1).toNat = i.toNat + 1 := by
  have hlt := UInt64.lt_iff_toNat_lt.mp h
  have hmax := n.toNat_lt
  rw [UInt64.toNat_add]
  exact Nat.mod_eq_of_lt (by rw [UInt64.toNat_one]; omega)

/-- `ringbuf_write` takes what there is room for. -/
lemma wp_ringbufWrite (h : Holds cap q rb) :
    wp (ringbufWrite src n) (fun r rb' => r = .ofNat (min n.toNat (cap.toNat - q.length)) ∧
      Holds cap (q ++ src.slice 0 (min n.toNat (cap.toNat - q.length))) rb') rb := by
  have hle := h.length_le
  refine wp_iter (fun (i : UInt64) rb' => i.toNat ≤ n.toNat ∧ i.toNat ≤ cap.toNat - q.length ∧
    Holds cap (q ++ src.slice 0 i.toNat) rb') (fun i _ => n.toNat - i.toNat) ?_ ?_ ?_
  · rintro i rb' ⟨hin, hspace, hi⟩
    have hlen : (q ++ src.slice 0 i.toNat).length = q.length + i.toNat := by
      rw [List.length_append, Bytes.length_slice]
    rw [wp_bind, wp_get]
    refine wp_ite_intro (fun hgo => ?_) fun hstop => ?_
    · have hlt := UInt64.lt_iff_toNat_lt.mp hgo.1
      have hroom : q.length + i.toNat ≠ cap.toNat := by
        have hfull := hgo.2
        rwa [hi.ringbufFull_eq, decide_eq_false_iff_not, hlen] at hfull
      rw [wp_bind]
      refine wp_mono (wp_ringbufPush hi (by rw [hlen]; omega)) ?_
      rintro r rb'' ⟨-, hpush⟩
      rw [wp_pure]
      have hslice : src.slice 0 (i.toNat + 1) = src.slice 0 i.toNat ++ [src i.toNat] := by
        rw [Bytes.slice_add, Nat.zero_add]
        rfl
      refine ⟨⟨?_, ?_, ?_⟩, ?_⟩
      · rw [toNat_succ hgo.1]
        omega
      · rw [toNat_succ hgo.1]
        omega
      · rwa [toNat_succ hgo.1, hslice, ← List.append_assoc]
      · rw [toNat_succ hgo.1]
        omega
    · have hmin : min n.toNat (cap.toNat - q.length) = i.toNat := by
        rw [hi.ringbufFull_eq, decide_eq_false_iff_not, hlen, UInt64.lt_iff_toNat_lt] at hstop
        omega
      rw [wp_pure, hmin]
      exact ⟨(UInt64.ofNat_toNat).symm, hi⟩
  · exact ⟨Nat.zero_le _, Nat.zero_le _, by simpa [Bytes.slice] using h⟩
  · exact Nat.lt_succ_of_le (Nat.sub_le _ _)

/-- The next byte of a copy. -/
lemma update_blit {b : UInt8} {m : ℕ} (h : q[m]? = some b) :
    Function.update (dst.blit 0 (.ofList q) m) m b = dst.blit 0 (.ofList q) (m + 1) := by
  funext a
  rcases eq_or_ne a m with rfl | hne
  · rw [Function.update_self, Bytes.blit_start (Nat.lt_succ_self a), Bytes.ofList,
      List.getD_eq_getElem?_getD, h]
    rfl
  · rw [Function.update_of_ne hne]
    rcases Nat.lt_or_ge a m with hlt | hge
    · rw [Bytes.blit_start hlt, Bytes.blit_start (by omega)]
    · rw [Bytes.blit_of_not_mem (by omega), Bytes.blit_of_not_mem (by omega)]

/-- `ringbuf_read` gives what there is. -/
lemma wp_ringbufRead (h : Holds cap q rb) :
    wp (ringbufRead dst n) (fun r rb' => r = (.ofNat (min n.toNat q.length),
        dst.blit 0 (.ofList q) (min n.toNat q.length)) ∧
      Holds cap (q.drop (min n.toNat q.length)) rb') rb := by
  refine wp_iter (fun (v : UInt64 × Bytes) rb' => v.1.toNat ≤ n.toNat ∧ v.1.toNat ≤ q.length ∧
    v.2 = dst.blit 0 (.ofList q) v.1.toNat ∧ Holds cap (q.drop v.1.toNat) rb')
    (fun v _ => n.toNat - v.1.toNat) ?_ ?_ ?_
  · rintro ⟨i, d⟩ rb' ⟨hin, hlen, hd, hi⟩
    dsimp only at hin hlen hd hi ⊢
    subst hd
    rw [wp_bind, wp_get]
    refine wp_ite_intro (fun hgo => ?_) fun hstop => ?_
    · have hlt := UInt64.lt_iff_toNat_lt.mp hgo.1
      have hmore : i.toNat < q.length := by
        have hempty := hgo.2
        rw [hi.ringbufEmpty_eq, decide_eq_false_iff_not, List.length_drop] at hempty
        omega
      rw [wp_bind]
      refine wp_mono (wp_ringbufPop hi) ?_
      rintro r rb'' ⟨hr, hpop⟩
      rw [List.head?_drop, List.getElem?_eq_getElem hmore] at hr
      subst hr
      rw [wp_pure]
      refine ⟨⟨?_, ?_, ?_, ?_⟩, ?_⟩
      · rw [toNat_succ hgo.1]
        omega
      · rw [toNat_succ hgo.1]
        omega
      · rw [toNat_succ hgo.1]
        exact update_blit (List.getElem?_eq_getElem hmore)
      · rwa [toNat_succ hgo.1, ← List.tail_drop]
      · rw [toNat_succ hgo.1]
        omega
    · have hmin : min n.toNat q.length = i.toNat := by
        rw [hi.ringbufEmpty_eq, decide_eq_false_iff_not, List.length_drop,
          UInt64.lt_iff_toNat_lt] at hstop
        omega
      rw [wp_pure, hmin]
      exact ⟨by rw [UInt64.ofNat_toNat], hi⟩
  · exact ⟨Nat.zero_le _, Nat.zero_le _, (Bytes.blit_zero_len dst _ 0).symm, h⟩
  · exact Nat.lt_succ_of_le (Nat.sub_le _ _)

/-- `ringbuf_discard`. -/
lemma wp_ringbufDiscard (h : Holds cap q rb) :
    wp (ringbufDiscard n) (fun r rb' => r = .ofNat (min n.toNat q.length) ∧
      Holds cap (q.drop (min n.toNat q.length)) rb') rb := by
  have hmin : (if rb.ringbufLen < n then rb.ringbufLen else n).toNat = min n.toNat q.length := by
    have hlt : rb.ringbufLen < n ↔ q.length < n.toNat := by rw [UInt64.lt_iff_toNat_lt, h.len]
    by_cases hn : rb.ringbufLen < n
    · rw [if_pos hn, h.len, Nat.min_eq_right (hlt.mp hn).le]
    · rw [if_neg hn, Nat.min_eq_left (not_lt.mp (hlt.not.mp hn))]
  rw [ringbufDiscard, wp_bind, wp_get, wp_bind, wp_modify, wp_pure, ← hmin]
  exact ⟨UInt64.ofNat_toNat.symm, h.drop (hmin.trans_le (Nat.min_le_right _ _))⟩

/-- `ringbuf_clear`. -/
lemma wp_ringbufClear (h : Holds cap q rb) :
    wp ringbufClear (fun _ rb' => Holds cap [] rb') rb := by
  rw [ringbufClear, wp_modify, h.cap_eq]
  exact holds_empty h.pow rb.buf 0

/-! ## Runs -/

/-- Every call does what it is for. -/
lemma wp_call (h : Holds cap q rb) (c : Call) :
    wp (call c) (fun r rb' => r = (fifo cap.toNat q c).1 ∧
    Holds cap (fifo cap.toNat q c).2 rb') rb := by
  cases c with
  | push byte =>
    rw [call, wp_map, fifo]
    by_cases hq : q.length < cap.toNat
    · rw [if_pos hq]
      exact wp_mono (wp_ringbufPush h hq) fun r rb' hr => ⟨congrArg _ hr.1, hr.2⟩
    · rw [if_neg hq]
      exact wp_mono (wp_ringbufPush_full h (h.length_le.antisymm (not_lt.mp hq)))
        fun r rb' hr => ⟨congrArg _ hr.1, hr.2⟩
  | pop =>
    rw [call, wp_map]
    exact wp_mono (wp_ringbufPop h) fun r rb' hr => ⟨congrArg _ hr.1, hr.2⟩
  | peek =>
    rw [call, wp_map]
    exact wp_mono (wp_ringbufPeek h) fun r rb' hr => ⟨congrArg _ hr.1, hr.2⟩
  | peekAt k =>
    rw [call, wp_map]
    exact wp_mono (wp_ringbufPeekAt h) fun r rb' hr => ⟨congrArg _ hr.1, hr.2⟩
  | write src n =>
    rw [call, wp_map]
    exact wp_mono (wp_ringbufWrite h) fun r rb' hr => ⟨congrArg _ hr.1, hr.2⟩
  | read dst n =>
    rw [call, wp_map]
    exact wp_mono (wp_ringbufRead h) fun r rb' hr => ⟨by rw [hr.1]; rfl, hr.2⟩
  | discard n =>
    rw [call, wp_map]
    exact wp_mono (wp_ringbufDiscard h) fun r rb' hr => ⟨congrArg _ hr.1, hr.2⟩
  | clear =>
    rw [call, wp_map]
    exact wp_mono (wp_ringbufClear h) fun r rb' hr => ⟨rfl, hr⟩

/-- From a ring buffer that keeps a queue on, a run is a run of the queue. -/
lemma wp_run (h : Holds cap q rb) (calls : List Call) :
    wp (run calls) (fun seen rb' => seen = (fifoRun cap.toNat q calls).1 ∧
      Holds cap (fifoRun cap.toNat q calls).2 rb') rb := by
  induction calls generalizing q rb with
  | nil =>
    rw [run, wp_pure]
    exact ⟨rfl, h⟩
  | cons c calls ih =>
    rw [run, wp_bind]
    refine wp_mono (wp_call h c) ?_
    rintro r rb' ⟨rfl, h'⟩
    rw [wp_bind, wp_get, wp_bind]
    refine wp_mono (ih h') ?_
    rintro rest rb'' ⟨rfl, h''⟩
    rw [wp_pure, h'.ringbufLen_eq, h'.ringbufSpace_eq, h'.ringbufEmpty_eq, h'.ringbufFull_eq]
    exact ⟨rfl, h''⟩

/-- Whatever is called, and wherever the indices start, what is to be seen of a ring buffer is what
is to be seen of a queue of at most `cap` bytes, and no byte outside of the buffer is accessed. -/
theorem run_refines (cap : UInt64) (hcap : cap.toNat.isPowerOfTwo) (buf : Bytes) (i : UInt64)
    (calls : List Call) :
    wp (run calls) (fun seen rb => seen = (fifoRun cap.toNat [] calls).1 ∧
      Holds cap (fifoRun cap.toNat [] calls).2 rb) ⟨buf, cap, i, i⟩ :=
  wp_run (holds_empty hcap buf i) calls

/-- Eight cells and indices that wrap around: ten bytes are written, as many as there is room
for. -/
theorem run_refines_wrap :
    wp (run [.write (fun i => .ofNat i) 10, .pop, .discard 2, .push 8])
      (fun seen rb => seen.length = 4 ∧ Holds 8 [3, 4, 5, 6, 7, 8] rb)
      ⟨Bytes.zeros, 8, 0xFFFFFFFFFFFFFFFE, 0xFFFFFFFFFFFFFFFE⟩ := by
  refine wp_mono (run_refines 8 ⟨3, rfl⟩ _ _ _) fun seen rb h => ⟨?_, h.2⟩
  rw [h.1]
  rfl

end Ringbuf

end CoolFrost

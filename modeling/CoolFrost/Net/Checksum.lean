import CoolFrost.Lib.OnesComplement
import CoolFrost.Net.Net

/-!
# The Internet checksum

`ip_checksum` (`net/ip.c`) sums up in 32 bits and folds the carries afterwards.  That is the
checksum of RFC 1071, over the words as a little-endian machine reads them; and a packet whose
checksum has been stored has the checksum 0.
-/

namespace CoolFrost

namespace Net

/-! ## The function -/

/-- A word in memory. -/
def word (lo hi : UInt8) : UInt32 := lo.toUInt32 + 256 * hi.toUInt32

/-- The loop of `ip_checksum` over the words, and the byte that may be left over. -/
def sumWords : List UInt8 → UInt32 → UInt32
  | lo :: hi :: data, sum => sumWords data (sum + word lo hi)
  | [b], sum => sum + b.toUInt32
  | [], sum => sum

/-- A step of the loop of `ip_checksum` over the carries. -/
def foldStep (sum : UInt32) : UInt32 := (sum &&& (0xFFFF : UInt32)) + (sum >>> 16)

lemma toNat_foldStep (sum : UInt32) :
    (foldStep sum).toNat = sum.toNat % 65536 + sum.toNat / 65536 := by
  have hand : sum.toNat &&& 65535 = sum.toNat % 2 ^ 16 :=
    Nat.and_two_pow_sub_one_eq_mod sum.toNat 16
  have hlt := sum.toNat_lt
  rw [foldStep, UInt32.toNat_add, UInt32.toNat_and, UInt32.toNat_shiftRight]
  change ((sum.toNat &&& 65535) + sum.toNat >>> 16) % 2 ^ 32 = _
  rw [hand, Nat.shiftRight_eq_div_pow]
  omega

lemma shift_ne_zero_iff {sum : UInt32} : sum >>> 16 ≠ 0 ↔ 65536 ≤ sum.toNat := by
  have hshift : (sum >>> 16).toNat = sum.toNat / 65536 := by
    rw [UInt32.toNat_shiftRight]
    exact Nat.shiftRight_eq_div_pow _ _
  rw [ne_eq, ← UInt32.toNat_inj, hshift]
  change ¬sum.toNat / 65536 = 0 ↔ _
  omega

/-- The loop of `ip_checksum` over the carries. -/
def foldCarries (sum : UInt32) : UInt32 :=
  if sum >>> 16 ≠ 0 then foldCarries (foldStep sum) else sum
termination_by sum.toNat
decreasing_by
  have hge := shift_ne_zero_iff.mp ‹sum >>> 16 ≠ 0›
  rw [toNat_foldStep]
  omega

/-- `ip_checksum`. -/
def ipChecksum (data : List UInt8) : UInt16 := (~~~foldCarries (sumWords data 0)).toUInt16

/-- Store a checksum at an offset, the low byte first. -/
def storeChecksum (data : List UInt8) (off : ℕ) (cs : UInt16) : List UInt8 :=
  (data.set off cs.toUInt8).set (off + 1) (cs >>> 8).toUInt8

/-! ## The standard -/

/-- The little-endian words of a sequence of bytes, which is filled up with a zero. -/
def words : List UInt8 → List ℕ
  | lo :: hi :: data => (lo.toNat + 256 * hi.toNat) :: words data
  | [b] => [b.toNat]
  | [] => []

/-- The checksum of RFC 1071: the complement of the one's-complement sum of the words. -/
def rfc1071 (data : List UInt8) : ℕ := 65535 - OnesComplement.sum 65535 (words data)

/-! ## The sum -/

variable {data : List UInt8} {off : ℕ}

lemma words_le (data : List UInt8) : ∀ w ∈ words data, w ≤ 65535 := by
  fun_induction words data with
  | case1 lo hi data ih =>
    intro w hw
    rcases List.mem_cons.mp hw with rfl | hw
    · have hlo := lo.toNat_lt
      have hhi := hi.toNat_lt
      omega
    · exact ih w hw
  | case2 b =>
    intro w hw
    rw [List.mem_singleton.mp hw]
    exact (Nat.le_of_lt_succ b.toNat_lt).trans (by decide)
  | case3 => exact fun w hw => absurd hw List.not_mem_nil

lemma toNat_word (lo hi : UInt8) : (word lo hi).toNat = lo.toNat + 256 * hi.toNat := by
  have hlo := lo.toNat_lt
  have hhi := hi.toNat_lt
  rw [word, UInt32.toNat_add, UInt32.toNat_mul, UInt8.toNat_toUInt32, UInt8.toNat_toUInt32]
  change (lo.toNat + 256 * hi.toNat % 2 ^ 32) % 2 ^ 32 = _
  omega

/-- The sum of few words does not wrap around. -/
lemma toNat_sumWords (sum : UInt32) (h : sum.toNat + 65535 * data.length < 2 ^ 32) :
    (sumWords data sum).toNat = sum.toNat + (words data).sum := by
  fun_induction sumWords data sum with
  | case1 lo hi data sum ih =>
    have hlo := lo.toNat_lt
    have hhi := hi.toNat_lt
    have hword := toNat_word lo hi
    rw [List.length_cons, List.length_cons] at h
    have hsum : (sum + word lo hi).toNat = sum.toNat + (lo.toNat + 256 * hi.toNat) := by
      rw [UInt32.toNat_add, hword, Nat.mod_eq_of_lt (by omega)]
    rw [ih (by omega), hsum, words, List.sum_cons, Nat.add_assoc]
  | case2 b sum =>
    have hb := b.toNat_lt
    rw [List.length_singleton] at h
    rw [UInt32.toNat_add, UInt8.toNat_toUInt32, Nat.mod_eq_of_lt (by omega), words,
      List.sum_singleton]
  | case3 sum => rfl

/-- The loop over the carries ends with the word of the sum. -/
lemma toNat_foldCarries (sum : UInt32) :
    (foldCarries sum).toNat = OnesComplement.residue 65535 sum.toNat := by
  fun_induction foldCarries sum with
  | case1 sum _ ih => rw [ih, toNat_foldStep, OnesComplement.residue_fold]
  | case2 sum hzero =>
    have hlt : sum.toNat < 65536 := not_le.mp fun hge => hzero (shift_ne_zero_iff.mpr hge)
    rw [OnesComplement.residue_of_le (Nat.le_of_lt_succ hlt)]

/-- The checksum is the complement of the word of the sum. -/
lemma toNat_ipChecksum (h : data.length ≤ 1500) :
    (ipChecksum data).toNat = 65535 - OnesComplement.residue 65535 (words data).sum := by
  have hsum : (sumWords data 0).toNat = (words data).sum := by
    rw [toNat_sumWords 0 (by rw [UInt32.toNat_zero]; omega), UInt32.toNat_zero, Nat.zero_add]
  have hle := OnesComplement.residue_le (m := 65535) (by decide) (words data).sum
  have hfold := toNat_foldCarries (sumWords data 0)
  rw [hsum] at hfold
  rw [ipChecksum, UInt32.toNat_toUInt16, UInt32.toNat_not, hfold, UInt32.size]
  omega

/-! ## A stored checksum -/

/-- The words of a packet with a stored checksum add up to its sum and the checksum. -/
lemma sum_words_store (heven : off % 2 = 0) (hlo : data[off]? = some 0)
    (hhi : data[off + 1]? = some 0)
    (cs : UInt16) : (words (storeChecksum data off cs)).sum = (words data).sum + cs.toNat := by
  have hcs := cs.toNat_lt
  fun_induction words data generalizing off with
  | case1 lo hi data ih =>
    rcases Nat.lt_or_ge off 2 with hsmall | hlarge
    · obtain rfl : off = 0 := by omega
      obtain rfl : lo = 0 := Option.some.inj hlo
      obtain rfl : hi = 0 := Option.some.inj hhi
      have hbytes : cs.toUInt8.toNat + 256 * (cs >>> 8).toUInt8.toNat = cs.toNat := by
        rw [UInt16.toNat_toUInt8, UInt16.toNat_toUInt8, UInt16.toNat_shiftRight]
        change cs.toNat % 2 ^ 8 + 256 * (cs.toNat >>> 8 % 2 ^ 8) = _
        rw [Nat.shiftRight_eq_div_pow]
        omega
      change (words (cs.toUInt8 :: (cs >>> 8).toUInt8 :: data)).sum = _
      rw [words, List.sum_cons, hbytes, List.sum_cons, UInt8.toNat_zero]
      omega
    · obtain ⟨k, rfl⟩ := Nat.exists_eq_add_of_le' hlarge
      have hstore : storeChecksum (lo :: hi :: data) (k + 2) cs =
          lo :: hi :: storeChecksum data k cs :=
        rfl
      rw [hstore, words, List.sum_cons, List.sum_cons, ih (by omega) hlo hhi, ← Nat.add_assoc]
  | case2 b =>
    have hlt := (List.getElem?_eq_some_iff.mp hhi).1
    rw [List.length_singleton] at hlt
    omega
  | case3 => cases hlo

lemma length_storeChecksum (data : List UInt8) (off : ℕ) (cs : UInt16) :
    (storeChecksum data off cs).length = data.length := by
  rw [storeChecksum, List.length_set, List.length_set]

/-- A packet whose checksum has been stored has the checksum 0. -/
lemma ipChecksum_store (h : data.length ≤ 1500) (heven : off % 2 = 0) (hlo : data[off]? = some 0)
    (hhi : data[off + 1]? = some 0) :
    ipChecksum (storeChecksum data off (ipChecksum data)) = 0 := by
  apply UInt16.toNat_inj.mp
  rw [toNat_ipChecksum (by rw [length_storeChecksum]; exact h), sum_words_store heven hlo hhi,
    toNat_ipChecksum h, OnesComplement.residue_add_complement (by decide)]
  rfl

/-- `ip_checksum` is the checksum of the standard, and stored in a packet, in place of two zeros at
an even offset, it makes the checksum of the packet 0. -/
theorem ipChecksum_correct (data : List UInt8) (h : data.length ≤ 1500) :
    (ipChecksum data).toNat = rfc1071 data ∧
      ∀ off, off % 2 = 0 → data[off]? = some 0 → data[off + 1]? = some 0 →
        ipChecksum (storeChecksum data off (ipChecksum data)) = 0 := by
  refine ⟨?_, fun off => ipChecksum_store h⟩
  rw [toNat_ipChecksum h, rfc1071, OnesComplement.sum_eq_residue (by decide) (words_le data)]

/-- An echo request with an odd byte at its end. -/
theorem ipChecksum_correct_five :
    (ipChecksum [8, 0, 0, 0, 0x5A]).toNat = rfc1071 [8, 0, 0, 0, 0x5A] ∧
    ipChecksum (storeChecksum [8, 0, 0, 0, 0x5A] 2 (ipChecksum [8, 0, 0, 0, 0x5A])) = 0 := by
  obtain ⟨heq, hstore⟩ := ipChecksum_correct [8, 0, 0, 0, 0x5A] (by decide)
  exact ⟨heq, hstore 2 rfl rfl rfl⟩

/-! ## The packets that are sent -/

/-- The reply of `icmp_handle` to an echo request. -/
def echoReply (payload : List UInt8) : List UInt8 :=
  let reply := ((payload.set 0 0).set 2 0).set 3 0
  storeChecksum reply 2 (ipChecksum reply)

/-- The echo request of `icmp_ping`. -/
def echoRequest (seq : UInt16) : List UInt8 :=
  let pkt := ([8, 0, 0, 0, 0x5A, 0x5A, (seq >>> 8).toUInt8, seq.toUInt8] : List UInt8) ++
    (List.range 32).map fun i => UInt8.ofNat (65 + i % 26)
  storeChecksum pkt 2 (ipChecksum pkt)

/-- The header of `ip_send`. -/
def ipHeader (src dst : IpAddr) (proto : UInt8) (plen : UInt16) : List UInt8 :=
  let total := 20 + plen
  let hdr : List UInt8 := [0x45, 0, (total >>> 8).toUInt8, total.toUInt8, 0, 0, 0x40, 0,
    64, proto, 0, 0, src.b0, src.b1, src.b2, src.b3, dst.b0, dst.b1, dst.b2, dst.b3]
  storeChecksum hdr 10 (ipChecksum hdr)

/-- A reply has the checksum 0. -/
lemma ipChecksum_echoReply (h : 8 ≤ data.length) (hle : data.length ≤ 1480) :
    ipChecksum (echoReply data) = 0 := by
  have hlen : (((data.set 0 0).set 2 0).set 3 0).length = data.length := by
    rw [List.length_set, List.length_set, List.length_set]
  apply ipChecksum_store (by omega) rfl
  · rw [List.getElem?_set_ne (by decide), List.getElem?_set_self (by rw [List.length_set]; omega)]
  · rw [List.getElem?_set_self (by rw [List.length_set, List.length_set]; omega)]

/-- A request has the checksum 0. -/
lemma ipChecksum_echoRequest (seq : UInt16) : ipChecksum (echoRequest seq) = 0 :=
  ipChecksum_store (by simp) rfl rfl rfl

/-- A header has the checksum 0. -/
lemma ipChecksum_ipHeader (src dst : IpAddr) (proto : UInt8) (plen : UInt16) :
    ipChecksum (ipHeader src dst proto plen) = 0 := by
  apply ipChecksum_store _ rfl rfl rfl
  exact (by decide : 20 ≤ 1500)

end Net

end CoolFrost

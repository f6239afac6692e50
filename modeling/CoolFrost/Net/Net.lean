import CoolFrost.Lib.Bytes

/-!
# Network addresses

The address types of `net/net.h` and the fields of a packet: addresses are bytes in network order,
and numbers are big-endian.
-/

namespace CoolFrost

/-- `ip_addr_t`. -/
structure IpAddr where
  b0 : UInt8
  b1 : UInt8
  b2 : UInt8
  b3 : UInt8
  deriving DecidableEq, Repr

/-- `mac_addr_t`. -/
structure MacAddr where
  b0 : UInt8
  b1 : UInt8
  b2 : UInt8
  b3 : UInt8
  b4 : UInt8
  b5 : UInt8
  deriving DecidableEq, Repr

namespace IpAddr

/-- 0.0.0.0. -/
def any : IpAddr := ⟨0, 0, 0, 0⟩

/-- 255.255.255.255. -/
def bcast : IpAddr := ⟨0xFF, 0xFF, 0xFF, 0xFF⟩

/-- The address stored in the four bytes at `off`. -/
def read (b : Bytes) (off : ℕ) : IpAddr := ⟨b off, b (off + 1), b (off + 2), b (off + 3)⟩

end IpAddr

namespace MacAddr

/-- The broadcast address. -/
def bcast : MacAddr := ⟨0xFF, 0xFF, 0xFF, 0xFF, 0xFF, 0xFF⟩

/-- The address stored in the six bytes at `off`. -/
def read (b : Bytes) (off : ℕ) : MacAddr :=
  ⟨b off, b (off + 1), b (off + 2), b (off + 3), b (off + 4), b (off + 5)⟩

end MacAddr

/-- `ntohs` of the 16-bit field at `off`. -/
def ntohs (b : Bytes) (off : ℕ) : ℕ := 256 * (b off).toNat + (b (off + 1)).toNat

/-- `ntohl` of the 32-bit field at `off`. -/
def ntohl (b : Bytes) (off : ℕ) : ℕ := 65536 * ntohs b off + ntohs b (off + 2)

/-!
## The ARP cache

`arp_lookup` and `arp_insert` of `net/arp.c`.
-/

/-- `arp_entry_t`. -/
structure ArpEntry where
  ip : IpAddr
  mac : MacAddr
  valid : Bool
  deriving DecidableEq

/-- `arp_cache` and `arp_cache_next`. -/
structure ArpCache where
  entries : ℕ → ArpEntry
  next : ℕ

namespace ArpCache

/-- `ARP_CACHE_SIZE`. -/
def arpCacheSize : ℕ := 16

/-- The cache at boot. -/
def boot : ArpCache := ⟨fun _ => ⟨.any, ⟨0, 0, 0, 0, 0, 0⟩, false⟩, 0⟩

/-- The loop of `arp_lookup` and of `arp_insert`: the first valid entry for `ip`. -/
def find (c : ArpCache) (ip : IpAddr) : Option ℕ :=
  (List.range arpCacheSize).find? fun i => (c.entries i).valid && (c.entries i).ip = ip

/-- `arp_lookup`. -/
def arpLookup (c : ArpCache) (ip : IpAddr) : Option MacAddr :=
  (c.find ip).map fun i => (c.entries i).mac

/-- `arp_insert`. -/
def arpInsert (c : ArpCache) (ip : IpAddr) (mac : MacAddr) : ArpCache :=
  match c.find ip with
  | some i => { c with entries := Function.update c.entries i { c.entries i with mac := mac } }
  | none => ⟨Function.update c.entries c.next ⟨ip, mac, true⟩, (c.next + 1) % arpCacheSize⟩

end ArpCache

end CoolFrost

import CoolFrost.Drivers.Blk

/-!
# What the file system drivers share

Fixed-width arithmetic of the C sources and the parts of `fs/vfs.h` that every driver uses.
-/

namespace CoolFrost

/-- Cut a number to 32 bits. -/
def u32 (n : ℕ) : ℕ := n % 2 ^ 32

/-- `a - b` in 32-bit arithmetic. -/
def u32sub (a b : ℕ) : ℕ := u32 (a + (2 ^ 32 - b))

/-- The `int` obtained from a 32-bit number. -/
def int32 (n : ℕ) : ℤ := if u32 n < 2 ^ 31 then u32 n else u32 n - 2 ^ 32

lemma int32_of_lt {n : ℕ} (h : n < 2 ^ 31) : int32 n = n := by
  have hu : u32 n = n := Nat.mod_eq_of_lt (by omega)
  rw [int32, hu, if_pos h]

/-- `MAX_FILENAME`. -/
def maxFilename : ℕ := 128

/-- The name `.`. -/
def dotName : List UInt8 := [46]
/-- The name `..`. -/
def dotDotName : List UInt8 := [46, 46]

/-- The `type` of a node: the bit sets `VFS_FILE`, `VFS_DIRECTORY` and
`VFS_DIRECTORY | VFS_MOUNTPOINT` are the only ones a driver stores. -/
inductive VfsType where
  | file
  | directory
  | mountRoot
  deriving DecidableEq, Repr

/-- `type & VFS_FILE`. -/
def VfsType.isFile : VfsType → Bool
  | .file => true
  | _ => false

/-- `type & VFS_DIRECTORY`. -/
def VfsType.isDirectory : VfsType → Bool
  | .file => false
  | _ => true

/-- What `readdir` returns (`dirent_t`). -/
structure Dirent where
  /-- The name. -/
  name : List UInt8
  /-- The size in bytes. -/
  size : ℕ
  /-- File or directory. -/
  type : VfsType
  deriving DecidableEq

/-- A pointer to a node: the driver whose pool it is in, and its place there. -/
inductive VNode where
  | fat32 (i : ℕ)
  | ext2 (i : ℕ)
  | ntfs (i : ℕ)
  | xfs (i : ℕ)
  deriving DecidableEq, Repr

/-- An entry of a task's table of open files (`file_descriptor_t`). -/
structure FileDescriptor where
  node : Option VNode
  offset : ℕ
  flags : ℕ
  active : Bool
  deriving DecidableEq, Repr

/-- The all-zero table entry. -/
def FileDescriptor.closed : FileDescriptor := ⟨none, 0, 0, false⟩

/-- `MAX_FD`. -/
def maxFd : ℕ := 64

/-- The counters of a defragmentation: files looked at, moved, and left in place. -/
structure DefragCount where
  scanned : ℕ
  moved : ℕ
  skipped : ℕ
  deriving DecidableEq, Repr

/-- Count one file with the return code of its defragmentation. -/
def DefragCount.add (c : DefragCount) (rc : ℤ) : DefragCount :=
  ⟨c.scanned + 1, if rc = 1 then c.moved + 1 else c.moved,
    if rc < 0 then c.skipped + 1 else c.skipped⟩

end CoolFrost

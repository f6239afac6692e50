import CoolFrost.Cpu.Sched
import CoolFrost.Libc.Stdio

/-!
# Searching a directory tree

`ufind` (`userland/ufileutil.h`) looks for a name below a directory, to a fixed depth.  The process
has a table of open descriptors, and a tree says what SYS_OPEN finds at a path.  `walk` is the
search as it should be: everything that there is to see in the tree, in the order of a depth-first
listing.

A directory that cannot be opened ends the whole search with -1, though it should only be passed
over; `finds_iff` says when this makes no difference.
-/

namespace CoolFrost

open Program

namespace Ufind

/-- `UFIND_MAX_DEPTH`. -/
def ufindMaxDepth : ℕ := 8
/-- `UFIND_MAX_PATH`. -/
def ufindMaxPath : ℕ := 256
/-- The character `/`. -/
def slash : UInt8 := 47

/-- What SYS_OPEN finds at a path: the entries that SYS_READDIR gives for it, or nothing when it
fails.  The index of an entry is a number of 32 bits, and a name is a part of a path. -/
structure DirTree where
  dirs : List UInt8 → Option (List Dirent)
  small : ∀ path es, dirs path = some es → es.length < loopFuel
  names : ∀ path es, dirs path = some es → ∀ e ∈ es, e.name ≠ [] ∧ 0 ∉ e.name ∧ slash ∉ e.name

/-- The open descriptors of the process, each with the entries of its directory, and `out_path`. -/
structure Proc where
  fds : ℕ → Option (List Dirent)
  out : Bytes

/-! ## System calls -/

/-- SYS_OPEN: a descriptor for a path, if there is one left. -/
def sysOpen (t : DirTree) (path : List UInt8) : Program Proc (Option ℕ) := fun p =>
  match (List.range maxFd).find? fun fd => (p.fds fd).isNone, t.dirs path with
  | some fd, some es => some (some fd, { p with fds := Function.update p.fds fd (some es) })
  | _, _ => some (none, p)

/-- SYS_READDIR: the entry of an open directory at an index. -/
def sysReaddir (fd idx : ℕ) : Program Proc (Option Dirent) := do
  let p ← get
  return (p.fds fd).bind fun es => es[idx]?

/-- SYS_CLOSE. -/
def sysClose (fd : ℕ) : Program Proc PUnit :=
  modify fun p => { p with fds := Function.update p.fds fd none }

/-! ## The functions -/

/-- `ufind_streq`. -/
def ufindStreq : List UInt8 → List UInt8 → Bool
  | a :: as, b :: bs => if a ≠ b then false else ufindStreq as bs
  | [], [] => true
  | _, _ => false

/-- The path of an entry: a slash comes in between unless there is one already. -/
def childPath (dir name : List UInt8) : List UInt8 :=
  dir ++ (if dir.getLast? = some slash then [] else [slash]) ++ name

/-- The path of an entry might not fit into the buffer for it. -/
def tooLong (dir name : List UInt8) : Bool := ufindMaxPath < dir.length + 1 + name.length + 1

/-- The entries that stand for the directory itself and for the one that it is in. -/
def isDot (name : List UInt8) : Bool := name = dotName || name = dotDotName

/-- Copy a path with its terminator to `out_path`. -/
def copyOut (path : List UInt8) : Program Proc PUnit :=
  modify fun p => { p with out := p.out.blit 0 (.ofList path) (path.length + 1) }

/-- A round of the loop of `ufind_rec`, with the recursive call `rec`. -/
def ufindRound (target : List UInt8) (outMax : ℕ) (rec : List UInt8 → Program Proc ℤ)
    (dirPath : List UInt8) (dfd idx : ℕ) : Program Proc (ℕ ⊕ ℤ) := do
  match ← sysReaddir dfd idx with
  | none => return .inr 0
  | some de =>
    if isDot de.name then return .inl (idx + 1)
    else if tooLong dirPath de.name then return .inl (idx + 1)
    else
      let path := childPath dirPath de.name
      if ufindStreq de.name target ∧ path.length + 1 ≤ outMax then
        copyOut path
        return .inr 1
      else if de.type.isDirectory then
        let r ← rec path
        if r ≠ 0 then return .inr r else return .inl (idx + 1)
      else return .inl (idx + 1)

/-- `ufind_rec`; the levels left are those up to `UFIND_MAX_DEPTH`. -/
def ufindRec (t : DirTree) (target : List UInt8) (outMax : ℕ) : ℕ → List UInt8 → Program Proc ℤ
  | 0, _ => return 0
  | n + 1, dirPath => do
    match ← sysOpen t dirPath with
    | none => return -1
    | some dfd =>
      let result ← iter (ufindRound target outMax (ufindRec t target outMax n)
        dirPath dfd) loopFuel 0
      sysClose dfd
      return result

/-- `ufind`. -/
def ufind (t : DirTree) (dirPath target : Stdio.CStr) (outMax : ℕ) : Program Proc ℤ :=
  ufindRec t target.bytes outMax (ufindMaxDepth + 1) dirPath.bytes

/-! ## What there is to see -/

/-- What comes up in a listing: an entry of a directory, or that a subdirectory could not be
opened. -/
inductive Visit
  | entry (dir name : List UInt8)
  | closed (dir name : List UInt8)

namespace Visit

/-- The directory with the entry. -/
def dir : Visit → List UInt8
  | entry dir _ => dir
  | closed dir _ => dir

/-- The name of the entry. -/
def name : Visit → List UInt8
  | entry _ name => name
  | closed _ name => name

/-- The path of the entry. -/
def path (v : Visit) : List UInt8 := childPath v.dir v.name

/-- An entry of the name looked for. -/
def isMatch (target : List UInt8) : Visit → Bool
  | entry _ name => name = target
  | closed _ _ => false

/-- A subdirectory that could not be opened. -/
def isClosed : Visit → Bool
  | entry _ _ => false
  | closed _ _ => true

end Visit

/-- The entries of the directory at a path, when `free` descriptors are left. -/
def opened (t : DirTree) (free : ℕ) (path : List UInt8) : Option (List Dirent) :=
  if free = 0 then none else t.dirs path

/-- An entry of a directory and what is in it, given a listing of the subdirectories. -/
def seen (sub : List UInt8 → Option (List Visit)) (dir : List UInt8) (e : Dirent) : List Visit :=
  if isDot e.name then []
  else .entry dir e.name ::
    if e.type.isDirectory then (sub (childPath dir e.name)).getD [.closed dir e.name] else []

/-- A depth-first listing of `n` levels below a directory, every entry before what is in it, when
`free` descriptors are left; `none` when the directory itself cannot be opened. -/
def walk (t : DirTree) : ℕ → ℕ → List UInt8 → Option (List Visit)
  | 0, _, _ => some []
  | n + 1, free, dir => (opened t free dir).map fun es =>
      es.flatMap (seen (walk t n (free - 1)) dir)

/-- The number of descriptors left. -/
def Proc.free (p : Proc) : ℕ := ((Finset.range maxFd).filter fun fd => (p.fds fd).isNone).card

/-- A string with its terminator is at the start of a buffer. -/
def Shows (out : Bytes) (path : List UInt8) : Prop := out.slice 0 (path.length + 1) = path ++ [0]

/-- What `ufind` is for: the path of the first entry of the name, 0 if there is none, and -1 if the
directory itself cannot be opened. -/
def Finds (t : DirTree) (dirPath target : Stdio.CStr) (outMax : ℕ) (p : Proc) : Prop :=
  wp (ufind t dirPath target outMax) (fun r p' => p'.fds = p.fds ∧
    match walk t (ufindMaxDepth + 1) p.free dirPath.bytes with
    | none => r = -1
    | some visits =>
      match visits.find? (Visit.isMatch target.bytes) with
      | none => r = 0
      | some v => r = 1 ∧ Shows p'.out v.path) p

/-! ## Paths -/

variable {t : DirTree} {dir name target : List UInt8} {n free outMax : ℕ} {p : Proc} {v : Visit}
  {visits : List Visit}

lemma ufindStreq_iff (a b : List UInt8) : ufindStreq a b = true ↔ a = b := by
  induction a generalizing b with
  | nil =>
    cases b with
    | nil => exact iff_of_true rfl rfl
    | cons b bs => exact iff_of_false Bool.false_ne_true (by simp)
  | cons a as ih =>
    cases b with
    | nil => exact iff_of_false Bool.false_ne_true (by simp)
    | cons b bs =>
      rw [ufindStreq, List.cons.injEq, ← ih]
      by_cases hab : a = b
      · rw [if_neg (not_not.mpr hab), and_iff_right hab]
      · rw [if_pos hab]
        exact iff_of_false Bool.false_ne_true fun h => hab h.1

/-- The path of an entry does not end in a slash. -/
lemma getLast?_childPath (hname : name ≠ []) (hslash : slash ∉ name) :
    (childPath dir name).getLast? ≠ some slash := by
  rw [childPath, List.getLast?_append_of_ne_nil _ hname]
  exact fun h => hslash (List.mem_of_getLast? h)

lemma length_childPath : (childPath dir name).length =
    dir.length + (if dir.getLast? = some slash then 0 else 1) + name.length := by
  rw [childPath, List.length_append, List.length_append]
  split_ifs <;> rfl

lemma zero_notMem_childPath (hdir : 0 ∉ dir) (hname : 0 ∉ name) : 0 ∉ childPath dir name := by
  intro hmem
  rw [childPath, List.mem_append, List.mem_append] at hmem
  rcases hmem with (hmem | hmem) | hmem
  · exact hdir hmem
  · split_ifs at hmem
    · exact List.not_mem_nil hmem
    · exact absurd (List.mem_singleton.mp hmem) (by decide)
  · exact hname hmem

lemma opened_eq_some {es : List Dirent} (h : opened t free dir = some es) :
    t.dirs dir = some es := by
  unfold opened at h
  split_ifs at h
  exact h

/-- What is seen of an entry is the entry, its failure to open, or something below it. -/
lemma mem_seen {sub : List UInt8 → Option (List Visit)} {e : Dirent} (h : v ∈ seen sub dir e) :
    (v.dir = dir ∧ v.name = e.name) ∨ ∃ below,
    sub (childPath dir e.name) = some below ∧ v ∈ below := by
  unfold seen at h
  split_ifs at h with hdot hdir
  · exact absurd h List.not_mem_nil
  · rcases List.mem_cons.mp h with rfl | h
    · exact .inl ⟨rfl, rfl⟩
    · cases hsub : sub (childPath dir e.name) with
      | none =>
        rw [hsub, Option.getD_none, List.mem_singleton] at h
        subst h
        exact .inl ⟨rfl, rfl⟩
      | some below =>
        rw [hsub, Option.getD_some] at h
        exact .inr ⟨below, rfl, h⟩
  · obtain rfl := List.mem_singleton.mp h
    exact .inl ⟨rfl, rfl⟩

/-- What is seen below a directory is in the directory itself, or in one with a longer path that
does not end in a slash. -/
structure Below (dir : List UInt8) (v : Visit) : Prop where
  name_ne : v.name ≠ []
  name_nul : 0 ∉ v.name
  dir_nul : 0 ∉ dir → 0 ∉ v.dir
  deeper : v.dir = dir ∨ dir.length < v.dir.length ∧ v.dir.getLast? ≠ some slash

lemma below_of_mem_walk (h : walk t n free dir = some visits) (hv : v ∈ visits) : Below dir v := by
  induction n generalizing free dir visits with
  | zero =>
    obtain rfl := Option.some.inj h
    exact absurd hv List.not_mem_nil
  | succ n ih =>
    obtain ⟨es, hes, rfl⟩ := Option.map_eq_some_iff.mp h
    obtain ⟨e, he, hv⟩ := List.mem_flatMap.mp hv
    obtain ⟨hne, hnul, hslash⟩ := t.names dir es (opened_eq_some hes) e he
    rcases mem_seen hv with ⟨hdir, hname⟩ | ⟨below, hbelow, hv⟩
    · exact ⟨hname ▸ hne, hname ▸ hnul, fun h => hdir ▸ h, .inl hdir⟩
    · have hlen : dir.length < (childPath dir e.name).length := by
        have hpos := List.length_pos_of_ne_nil hne
        rw [length_childPath]
        omega
      have hsub := ih hbelow hv
      refine ⟨hsub.name_ne, hsub.name_nul, fun h =>
        hsub.dir_nul (zero_notMem_childPath h hnul), .inr ?_⟩
      rcases hsub.deeper with hdir | ⟨hlonger, hlast⟩
      · rw [hdir]
        exact ⟨hlen, getLast?_childPath hne hslash⟩
      · exact ⟨hlen.trans hlonger, hlast⟩

/-- An entry that is passed over for its length has nothing below it with a short path. -/
lemma not_short_of_tooLong (hne : name ≠ []) (hslash : slash ∉ name)
    (hlong : tooLong dir name = true)
    (hv : Below (childPath dir name) v) : ufindMaxPath ≤ v.path.length := by
  have hpos := List.length_pos_of_ne_nil hv.name_ne
  have hdir : (childPath dir name).length ≤ v.dir.length ∧ v.dir.getLast? ≠ some slash := by
    rcases hv.deeper with heq | ⟨hlt, hlast⟩
    · rw [heq]
      exact ⟨le_rfl, getLast?_childPath hne hslash⟩
    · exact ⟨hlt.le, hlast⟩
  rw [tooLong, decide_eq_true_iff] at hlong
  have hlen := hdir.1
  rw [length_childPath] at hlen
  rw [Visit.path, length_childPath, if_neg hdir.2]
  split_ifs at hlen <;> omega

/-! ## Descriptors -/

/-- There is a descriptor left if one is found. -/
lemma find?_fd_eq_none : ((List.range maxFd).find? fun fd => (p.fds fd).isNone) = none ↔
    p.free = 0 := by
  rw [List.find?_eq_none, Proc.free, Finset.card_eq_zero, Finset.filter_eq_empty_iff]
  simp only [List.mem_range, Finset.mem_range]

/-- SYS_OPEN of a path that cannot be opened. -/
lemma wp_sysOpen_none (h : opened t p.free dir = none) (Q : Option ℕ → Proc → Prop) :
    wp (sysOpen t dir) Q p ↔ Q none p := by
  refine wp_iff_of_eq ?_
  unfold sysOpen
  cases hfd : (List.range maxFd).find? fun fd => (p.fds fd).isNone with
  | none => rfl
  | some fd =>
    have hdirs : t.dirs dir = none := by
      unfold opened at h
      split_ifs at h with hzero
      · rw [find?_fd_eq_none.mpr hzero] at hfd
        cases hfd
      · exact h
    rw [hdirs]

/-- SYS_OPEN of a directory takes one of the descriptors that are left. -/
lemma wp_sysOpen_some {es : List Dirent} (h : opened t p.free dir = some es) :
    wp (sysOpen t dir) (fun r p' => ∃ fd, r = some fd ∧ p.fds fd = none ∧ p'.free = p.free - 1 ∧
      p' = { p with fds := Function.update p.fds fd (some es) }) p := by
  have hfree : p.free ≠ 0 := by
    intro hzero
    rw [opened, if_pos hzero] at h
    cases h
  obtain ⟨fd, hfd⟩ := Option.ne_none_iff_exists'.mp (find?_fd_eq_none.not.mpr hfree)
  have hsome := List.find?_some (p := fun fd => (p.fds fd).isNone) hfd
  have hnone : p.fds fd = none := Option.isNone_iff_eq_none.mp hsome
  have hlt : fd ∈ Finset.range maxFd :=
    Finset.mem_range.mpr (List.mem_range.mp (List.mem_of_find?_eq_some hfd))
  have hopen : sysOpen t dir p =
      some (some fd, { p with fds := Function.update p.fds fd (some es) }) := by
    rw [sysOpen, hfd, opened_eq_some h]
  refine wp_of_eq hopen ⟨fd, rfl, hnone, ?_, rfl⟩
  have herase : (Finset.range maxFd).filter
    (fun i => (Function.update p.fds fd (some es) i).isNone) =
      ((Finset.range maxFd).filter fun i => (p.fds i).isNone).erase fd := by
    ext i
    rw [Finset.mem_erase, Finset.mem_filter, Finset.mem_filter]
    rcases eq_or_ne i fd with rfl | hne
    · simp
    · rw [Function.update_of_ne hne]
      exact (and_iff_right hne).symm
  have hmem : fd ∈ (Finset.range maxFd).filter fun i => (p.fds i).isNone :=
    Finset.mem_filter.mpr ⟨hlt, hsome⟩
  rw [Proc.free, Proc.free]
  exact (congrArg Finset.card herase).trans (Finset.card_erase_of_mem hmem)

lemma wp_sysReaddir {fd idx : ℕ} {es : List Dirent} (h : p.fds fd = some es)
    (Q : Option Dirent → Proc → Prop) : wp (sysReaddir fd idx) Q p ↔ Q es[idx]? p := by
  rw [sysReaddir, wp_bind, wp_get, wp_pure, h]
  rfl

/-! ## The search -/

/-- What ends the search. -/
def stops (target : List UInt8) (v : Visit) : Bool :=
  !tooLong v.dir v.name && (v.isClosed || v.isMatch target)

/-- The result of a search that is ended by this, with `out` in `out_path` before it. -/
def outcome (out : Bytes) : Option Visit → ℤ × Bytes
  | none => (0, out)
  | some (.entry dir name) =>
    (1, out.blit 0 (.ofList (childPath dir name)) ((childPath dir name).length + 1))
  | some (.closed _ _) => (-1, out)

/-- The result of `ufind_rec` for what there is to see below a directory. -/
def result (target : List UInt8) (out : Bytes) : Option (List Visit) → ℤ × Bytes
  | none => (-1, out)
  | some visits => outcome out (visits.find? (stops target))

/-- A result that does not end the search. -/
lemma outcome_eq_zero {out : Bytes} {o : Option Visit} (h : (outcome out o).1 = 0) : o = none := by
  cases o with
  | none => rfl
  | some v => cases v <;> cases h

/-- Entries whose paths are too long are passed over, and so would be what is below them. -/
lemma find?_seen_tooLong {sub : List UInt8 → Option (List Visit)} {e : Dirent} (hne : e.name ≠ [])
    (hslash : slash ∉ e.name) (hlong : tooLong dir e.name = true)
    (hshort : ∀ v ∈ seen sub dir e, v.path.length < ufindMaxPath)
    (hsub : ∀ below, sub (childPath dir e.name) = some below →
      ∀ v ∈ below, Below (childPath dir e.name) v) :
    (seen sub dir e).find? (stops target) = none := by
  rw [List.find?_eq_none]
  intro v hv hstop
  rcases mem_seen hv with ⟨hdir, hname⟩ | ⟨below, hbelow, hmem⟩
  · rw [stops, hdir, hname, hlong] at hstop
    cases hstop
  · exact absurd (hshort v hv)
      (not_lt.mpr (not_short_of_tooLong hne hslash hlong (hsub below hbelow v hmem)))

/-- The recursive call for an entry goes on as if what is seen of the subdirectory were in the
listing. -/
lemma result_eq {out : Bytes} (hlong : tooLong dir name ≠ true) (sub : Option (List Visit)) :
    result target out sub = outcome out ((sub.getD [.closed dir name]).find? (stops target)) := by
  cases sub with
  | none =>
    have hstop : stops target (.closed dir name) = true := by
      rw [stops, Bool.and_eq_true, Bool.not_eq_true']
      exact ⟨Bool.eq_false_iff.mpr hlong, rfl⟩
    rw [Option.getD_none, List.find?_cons_of_pos hstop]
    rfl
  | some below => rfl

/-- A path that is not too long fits into `out_path`. -/
lemma length_le_of_not_tooLong (hlong : tooLong dir name ≠ true) :
    (childPath dir name).length + 1 ≤ ufindMaxPath := by
  rw [tooLong, ne_eq, decide_eq_true_iff] at hlong
  rw [length_childPath]
  split_ifs <;> omega

/-- Only an entry of the name stops the search. -/
lemma stops_entry (hlong : tooLong dir name ≠ true) :
    stops target (.entry dir name) = decide (name = target) := by
  rw [stops, Visit.dir, Visit.name, Bool.eq_false_iff.mpr hlong]
  rfl

/-- The loop over the entries of an open directory. -/
lemma wp_rounds {rec : List UInt8 → Program Proc ℤ} {sub : List UInt8 →
    Option (List Visit)} {fd : ℕ}
    {es : List Dirent} {fds : ℕ → Option (List Dirent)} (hes : fds fd = some es)
    (hnames : ∀ e ∈ es, e.name ≠ [] ∧ 0 ∉ e.name ∧ slash ∉ e.name) (hmax : ufindMaxPath ≤ outMax)
    (hshort : ∀ v ∈ es.flatMap (seen sub dir), v.path.length < ufindMaxPath)
    (hbelow : ∀ path below, sub path = some below → ∀ v ∈ below, Below path v)
    (hrec : ∀ path, (∀ below, sub path = some below → ∀ v ∈ below, v.path.length < ufindMaxPath) →
      ∀ p : Proc, p.fds = fds → wp (rec path)
        (fun r p' => p'.fds = fds ∧ (r, p'.out) = result target p.out (sub path)) p)
    {rest : List Dirent} {k idx : ℕ} (hrest : es.drop idx = rest) (hk : rest.length < k)
    (hp : p.fds = fds) :
    wp (iter (ufindRound target outMax rec dir fd) k idx) (fun r p' => p'.fds = fds ∧
      (r, p'.out) = outcome p.out ((rest.flatMap (seen sub dir)).find? (stops target))) p := by
  induction rest generalizing k idx p with
  | nil =>
    obtain ⟨k, rfl⟩ := Nat.exists_eq_succ_of_ne_zero (Nat.pos_iff_ne_zero.mp hk)
    have hend : es[idx]? = none := List.getElem?_eq_none (List.drop_eq_nil_iff.mp hrest)
    rw [wp_iter_succ, ufindRound, wp_bind, wp_sysReaddir (hp ▸ hes), hend, wp_pure]
    exact ⟨hp, rfl⟩
  | cons e rest ih =>
    obtain ⟨k, rfl⟩ := Nat.exists_eq_succ_of_ne_zero (Nat.pos_iff_ne_zero.mp (Nat.zero_lt_of_lt hk))
    have hget : es[idx]? = some e := by
      rw [← List.head?_drop, hrest]
      rfl
    have hmem : e ∈ es := List.mem_of_getElem? hget
    have hnext : es.drop (idx + 1) = rest := by
      rw [← List.tail_drop, hrest]
      rfl
    have hcont : ∀ p' : Proc, p'.fds = fds → p'.out = p.out →
        (seen sub dir e).find? (stops target) = none →
        wp (iter (ufindRound target outMax rec dir fd) k (idx + 1)) (fun r q => q.fds = fds ∧
          (r, q.out) = outcome p.out (((e :: rest).flatMap (seen sub dir)).find? (stops target)))
          p' := by
      intro p' hp' hout hnone
      rw [List.flatMap_cons, List.find?_append, hnone, Option.none_or, ← hout]
      exact ih hnext (Nat.lt_of_succ_lt_succ hk) hp'
    have hseen : ∀ v ∈ seen sub dir e, v.path.length < ufindMaxPath := fun v hv =>
      hshort v (List.mem_flatMap.mpr ⟨e, hmem, hv⟩)
    obtain ⟨hne, -, hslash⟩ := hnames e hmem
    rw [wp_iter_succ, ufindRound, wp_bind, wp_sysReaddir (hp ▸ hes), hget]
    refine wp_ite_intro (fun hdot => ?_) fun hdot => wp_ite_intro (fun hlong => ?_) fun hlong =>
      wp_ite_intro (fun hmatch => ?_) fun hmatch => wp_ite_intro (fun hdir => ?_) fun hdir => ?_
    · rw [wp_pure]
      exact hcont p hp rfl (by rw [seen, if_pos hdot]; rfl)
    · rw [wp_pure]
      exact hcont p hp rfl (find?_seen_tooLong hne hslash hlong hseen (hbelow _))
    · have hstop : stops target (.entry dir e.name) = true := by
        rw [stops_entry hlong, decide_eq_true_iff]
        exact (ufindStreq_iff _ _).mp hmatch.1
      rw [wp_bind, copyOut, wp_modify, wp_pure, List.flatMap_cons, seen, if_neg hdot,
        List.cons_append, List.find?_cons_of_pos hstop]
      exact ⟨hp, rfl⟩
    all_goals
      -- a path that fits and is no match is another name
      have hstop : stops target (.entry dir e.name) ≠ true := by
        rw [stops_entry hlong, ne_eq, decide_eq_true_iff]
        intro heq
        exact hmatch ⟨(ufindStreq_iff _ _).mpr heq, (length_le_of_not_tooLong hlong).trans hmax⟩
    · have hfind : (seen sub dir e).find? (stops target) =
          ((sub (childPath dir e.name)).getD [.closed dir e.name]).find? (stops target) := by
        rw [seen, if_neg hdot, if_pos hdir, List.find?_cons_of_neg hstop]
      have hcall := hrec (childPath dir e.name) (fun below hb v hv => hseen v (by
        rw [seen, if_neg hdot, if_pos hdir, hb]
        exact List.mem_cons_of_mem _ hv)) p hp
      rw [wp_bind]
      refine wp_mono hcall ?_
      rintro r p' ⟨hp', hr⟩
      rw [result_eq hlong, ← hfind] at hr
      refine wp_ite_intro (fun hne => ?_) fun hzero => ?_
      · cases hfound : (seen sub dir e).find? (stops target) with
        | none =>
          rw [hfound] at hr
          exact absurd (congrArg Prod.fst hr) hne
        | some v =>
          rw [wp_pure, List.flatMap_cons, List.find?_append, hfound, Option.some_or, ← hfound, ← hr]
          exact ⟨hp', rfl⟩
      · have hnone := outcome_eq_zero ((congrArg Prod.fst hr).symm.trans (not_not.mp hzero))
        rw [hnone] at hr
        rw [wp_pure]
        exact hcont p' hp' (congrArg Prod.snd hr) hnone
    · rw [wp_pure]
      refine hcont p hp rfl ?_
      rw [seen, if_neg hdot, if_neg hdir, List.find?_cons_of_neg hstop]
      rfl

/-- `ufind_rec` comes to the first of what there is to see that ends the search, and leaves the
descriptors as they were. -/
lemma wp_ufindRec (hmax : ufindMaxPath ≤ outMax)
    (hshort : ∀ visits, walk t n p.free dir = some visits →
      ∀ v ∈ visits, v.path.length < ufindMaxPath) :
    wp (ufindRec t target outMax n dir) (fun r p' => p'.fds = p.fds ∧
      (r, p'.out) = result target p.out (walk t n p.free dir)) p := by
  induction n generalizing dir p with
  | zero =>
    rw [ufindRec, wp_pure]
    exact ⟨rfl, rfl⟩
  | succ n ih =>
    rw [ufindRec, wp_bind]
    cases hopen : opened t p.free dir with
    | none =>
      rw [wp_sysOpen_none hopen, wp_pure, walk, hopen]
      exact ⟨rfl, rfl⟩
    | some es =>
      refine wp_mono (wp_sysOpen_some hopen) ?_
      rintro r p₁ ⟨fd, rfl, hnone, hfree, hp₁⟩
      have hdirs := opened_eq_some hopen
      have hwalk : walk t (n + 1) p.free dir =
          some (es.flatMap (seen (walk t n (p.free - 1)) dir)) := by
        rw [walk, hopen]
        rfl
      have hfds : p₁.fds fd = some es := by
        rw [hp₁]
        exact Function.update_self _ _ _
      have hrec : ∀ path, (∀ below, walk t n (p.free - 1) path = some below →
          ∀ v ∈ below, v.path.length < ufindMaxPath) → ∀ q : Proc, q.fds = p₁.fds →
          wp (ufindRec t target outMax n path) (fun r q' => q'.fds = p₁.fds ∧
            (r, q'.out) = result target q.out (walk t n (p.free - 1) path)) q := by
        intro path hpath q hq
        have hqfree : q.free = p.free - 1 := by
          rw [← hfree, Proc.free, hq]
          rfl
        have hcall := @ih path q (by rw [hqfree]; exact hpath)
        rwa [hqfree, hq] at hcall
      have hrounds := wp_rounds hfds (t.names dir es hdirs) hmax (hshort _ hwalk)
        (fun _ _ hb _ hv => below_of_mem_walk hb hv) hrec (List.drop_zero (l := es))
        (t.small dir es hdirs) rfl
      rw [wp_bind]
      refine wp_mono hrounds ?_
      rintro result p₂ ⟨hfds₂, hout⟩
      rw [sysClose, wp_bind, wp_modify, wp_pure, hwalk]
      rw [hp₁] at hout
      refine ⟨?_, hout⟩
      rw [hfds₂, hp₁]
      dsimp only
      rw [Function.update_idem, ← hnone, Function.update_eq_self]

/-! ## When the search is right -/

/-- What `ufind` leaves in `out_path`. -/
lemma shows_blit (out : Bytes) (path : List UInt8) :
    Shows (out.blit 0 (.ofList path) (path.length + 1)) path := by
  have hslice := Bytes.slice_blit_ofList out 0 (path ++ [0])
  rwa [List.length_append, List.length_singleton, Bytes.ofList_concat_zero] at hslice

/-- A longer path is another one. -/
lemma not_shows_blit {out : Bytes} {path path' : List UInt8} (hnul : 0 ∉ path)
    (hlen : path'.length < path.length) :
    ¬Shows (out.blit 0 (.ofList path) (path.length + 1)) path' := by
  intro h
  have hat := congrArg (fun l => l[path'.length]?) h
  rw [Bytes.getElem?_slice (Nat.lt_succ_self _), Nat.zero_add,
    Bytes.blit_start (by omega), Bytes.ofList,
    List.getD_eq_getElem?_getD, List.getElem?_eq_getElem hlen, List.getElem?_concat_length] at hat
  have hzero : path[path'.length] = 0 := Option.some.inj hat
  exact hnul (hzero ▸ List.getElem_mem hlen)

/-- No subdirectory that cannot be opened comes before the first entry of the name, and this entry
is not one that is passed over for its length. -/
def Unhindered (target : List UInt8) (visits : List Visit) : Prop :=
  (∀ v ∈ visits.takeWhile fun v => !v.isMatch target, v.isClosed = true →
    tooLong v.dir v.name = true) ∧
    ∀ v, visits.find? (Visit.isMatch target) = some v → tooLong v.dir v.name = false

/-- Of two entries of one name only the one in a directory that ends in a slash may be passed over
for its length, and the other one has a longer path. -/
lemma length_lt_of_tooLong {u : Visit} (hv : Below dir v) (hu : Below dir u)
    (hshort : v.path.length < ufindMaxPath) (hname : u.name = v.name)
    (hvlong : tooLong v.dir v.name = true) (hulong : tooLong u.dir u.name = false) :
    v.path.length < u.path.length := by
  rw [tooLong, decide_eq_true_iff] at hvlong
  rw [Visit.path, length_childPath] at hshort ⊢
  have hslash : v.dir.getLast? = some slash := by
    by_contra hlast
    rw [if_neg hlast] at hshort
    omega
  have hvdir : v.dir = dir := hv.deeper.resolve_right fun h => h.2 hslash
  rcases hu.deeper with hudir | ⟨hlt, hlast⟩
  · rw [tooLong, decide_eq_false_iff_not, hudir, hname, ← hvdir] at hulong
    exact absurd hvlong hulong
  · rw [if_pos hslash, Visit.path, length_childPath, if_neg hlast, hvdir, hname]
    omega

/-- What stops the search is a match or a subdirectory that cannot be opened. -/
lemma isClosed_of_stops {u : Visit} (hstop : stops target u = true)
    (hmatch : u.isMatch target = false) :
    u.isClosed = true ∧ tooLong u.dir u.name = false := by
  rw [stops, hmatch, Bool.or_false, Bool.and_eq_true, Bool.not_eq_true'] at hstop
  exact hstop.symm

lemma stops_of_isClosed {u : Visit} (hclosed : u.isClosed = true)
    (hlong : tooLong u.dir u.name = false) :
    stops target u = true := by
  rw [stops, hclosed, hlong]
  rfl

/-- The result of a search that is stopped by a subdirectory. -/
lemma outcome_of_isClosed {u : Visit} (hclosed : u.isClosed = true) (out : Bytes) :
    outcome out (some u) = (-1, out) := by
  cases u with
  | entry => cases hclosed
  | closed => rfl

/-- The result of a search that is stopped by an entry. -/
lemma outcome_of_isMatch {u : Visit} (hmatch : u.isMatch target = true) (out : Bytes) :
    outcome out (some u) = (1, out.blit 0 (.ofList u.path) (u.path.length + 1)) ∧
    u.name = target := by
  cases u with
  | entry dir name => exact ⟨rfl, of_decide_eq_true hmatch⟩
  | closed => cases hmatch

/-- Nothing stops the search before the first match if no subdirectory does. -/
lemma find?_stops_eq_none_iff (hnomatch : ∀ v ∈ visits, v.isMatch target = false) :
    visits.find? (stops target) = none ↔ ∀ v ∈ visits, v.isClosed = true →
    tooLong v.dir v.name = true := by
  rw [List.find?_eq_none]
  constructor
  · intro hstops v hv hclosed
    by_contra hlong
    exact hstops v hv (stops_of_isClosed hclosed (Bool.eq_false_iff.mpr hlong))
  · intro hclosed v hv hstop
    obtain ⟨hc, hlong⟩ := isClosed_of_stops hstop (hnomatch v hv)
    rw [hclosed v hv hc] at hlong
    cases hlong

/-- The outcome of the search is the first entry of the name exactly if nothing is in the way. -/
lemma outcome_iff {out out' : Bytes} {r : ℤ} (hdir : 0 ∉ dir) (hbelow : ∀ v ∈ visits, Below dir v)
    (hshort : ∀ v ∈ visits, v.path.length < ufindMaxPath)
    (hr : (r, out') = outcome out (visits.find? (stops target))) :
    (match visits.find? (Visit.isMatch target) with
      | none => r = 0
      | some v => r = 1 ∧ Shows out' v.path) ↔ Unhindered target visits := by
  cases hfind : visits.find? (Visit.isMatch target) with
  | none =>
    have hnomatch : ∀ v ∈ visits, v.isMatch target = false := fun v hv =>
      Bool.eq_false_iff.mpr (List.find?_eq_none.mp hfind v hv)
    have hall : visits.takeWhile (fun v => !v.isMatch target) = visits :=
      List.takeWhile_eq_self_iff.mpr fun v hv => by rw [hnomatch v hv]; rfl
    rw [Unhindered, hall, ← find?_stops_eq_none_iff hnomatch, hfind]
    constructor
    · intro hzero
      exact ⟨outcome_eq_zero ((congrArg Prod.fst hr).symm.trans hzero), fun v hv => by cases hv⟩
    · rintro ⟨hnone, -⟩
      rw [hnone] at hr
      exact congrArg Prod.fst hr
  | some v =>
    obtain ⟨hmatch, pre, post, rfl, hpre⟩ := List.find?_eq_some_iff_append.mp hfind
    have hnomatch : ∀ u ∈ pre, u.isMatch target = false := fun u hu => by
      simpa only [Bool.not_eq_true'] using hpre u hu
    have hwhile : (pre ++ v :: post).takeWhile (fun v => !v.isMatch target) = pre := by
      rw [List.takeWhile_append_of_pos (by exact hpre),
        List.takeWhile_cons_of_neg (by rw [hmatch]; decide), List.append_nil]
    have hv : v ∈ pre ++ v :: post := List.mem_append_right _ List.mem_cons_self
    obtain ⟨-, hname⟩ := outcome_of_isMatch hmatch out
    rw [Unhindered, hwhile, hfind, ← find?_stops_eq_none_iff hnomatch]
    rw [List.find?_append] at hr
    constructor
    · rintro ⟨hone, hshows⟩
      have hfree : pre.find? (stops target) = none := by
        cases hp : pre.find? (stops target) with
        | none => rfl
        | some u =>
          obtain ⟨hclosed, -⟩ := isClosed_of_stops (List.find?_some hp)
            (hnomatch u (List.mem_of_find?_eq_some hp))
          rw [hp, Option.some_or, outcome_of_isClosed hclosed] at hr
          have hneg : r = -1 := congrArg Prod.fst hr
          omega
      refine ⟨hfree, fun w hw => ?_⟩
      obtain rfl := Option.some.inj hw
      by_contra hlong
      rw [Bool.not_eq_false] at hlong
      -- the first match is passed over: the search ends later, and with another path
      have hstop : stops target v ≠ true := by
        rw [stops, hlong]
        exact Bool.false_ne_true
      rw [hfree, Option.none_or, List.find?_cons_of_neg hstop] at hr
      cases hlater : post.find? (stops target) with
      | none =>
        rw [hlater] at hr
        have hzero : r = 0 := congrArg Prod.fst hr
        omega
      | some u =>
        have hu : u ∈ pre ++ v :: post :=
          List.mem_append_right _ (List.mem_cons_of_mem _ (List.mem_of_find?_eq_some hlater))
        rw [hlater] at hr
        cases humatch : u.isMatch target with
        | false =>
          obtain ⟨hclosed, -⟩ := isClosed_of_stops (List.find?_some hlater) humatch
          rw [outcome_of_isClosed hclosed] at hr
          have hneg : r = -1 := congrArg Prod.fst hr
          omega
        | true =>
          obtain ⟨hout, huname⟩ := outcome_of_isMatch humatch out
          rw [hout] at hr
          have hulong : tooLong u.dir u.name = false := by
            have hustop := List.find?_some hlater
            rw [stops, Bool.and_eq_true, Bool.not_eq_true'] at hustop
            exact hustop.1
          have hlen := length_lt_of_tooLong (hbelow v hv) (hbelow u hu) (hshort v hv)
            (huname.trans hname.symm) hlong hulong
          have hnul : 0 ∉ u.path :=
            zero_notMem_childPath ((hbelow u hu).dir_nul hdir) (hbelow u hu).name_nul
          have hout' : out' = out.blit 0 (.ofList u.path) (u.path.length + 1) :=
            congrArg Prod.snd hr
          rw [hout'] at hshows
          exact not_shows_blit hnul hlen hshows
    · rintro ⟨hfree, hlong⟩
      have hstop : stops target v = true := by
        rw [stops, hlong v rfl, hmatch, Bool.or_true]
        rfl
      rw [hfree, Option.none_or, List.find?_cons_of_pos hstop,
        (outcome_of_isMatch hmatch out).1] at hr
      have hout' : out' = out.blit 0 (.ofList v.path) (v.path.length + 1) := congrArg Prod.snd hr
      rw [hout']
      exact ⟨congrArg Prod.fst hr, shows_blit out v.path⟩

/-- `ufind` finds the first entry of a name exactly if, in the order of the listing, no subdirectory
that cannot be opened comes before it and it is not passed over for the length of its path. -/
theorem finds_iff (t : DirTree) (dirPath target : Stdio.CStr) (outMax : ℕ) (p : Proc)
    (hmax : ufindMaxPath ≤ outMax)
    (hshort : ∀ visits, walk t (ufindMaxDepth + 1) p.free dirPath.bytes = some visits →
      ∀ v ∈ visits, v.path.length < ufindMaxPath) :
    Finds t dirPath target outMax p ↔
      ∀ visits, walk t (ufindMaxDepth + 1) p.free dirPath.bytes = some visits →
        Unhindered target.bytes visits := by
  have hrec : wp (ufindRec t target.bytes outMax (ufindMaxDepth + 1) dirPath.bytes) (fun r p' =>
      p'.fds = p.fds ∧ (r, p'.out) = result target.bytes p.out
        (walk t (ufindMaxDepth + 1) p.free dirPath.bytes)) p := wp_ufindRec hmax hshort
  obtain ⟨r, p', hrun, hfds, hr⟩ := hrec
  rw [Finds, ufind, wp_iff_of_eq hrun, and_iff_right hfds]
  cases hwalk : walk t (ufindMaxDepth + 1) p.free dirPath.bytes with
  | none =>
    rw [hwalk] at hr
    exact iff_of_true (congrArg Prod.fst hr) fun visits h => by cases h
  | some visits =>
    rw [hwalk] at hr
    refine (outcome_iff dirPath.nonzero (fun v hv => below_of_mem_walk hwalk hv)
      (hshort visits hwalk) hr).trans
      ⟨fun h vs hvs => Option.some.inj hvs ▸ h, fun h => h visits rfl⟩


/-! ## A directory with a subdirectory `A` in front of a file `B` -/

/-- What is found at a path, if `A` opens to these entries. -/
def sampleDirs (sub : Option (List Dirent)) (path : List UInt8) : Option (List Dirent) :=
  if path = [47] then some [⟨[65], 0, .directory⟩, ⟨[66], 1, .file⟩]
  else if path = [47, 65] then sub
  else none

/-- The tree, with `A` empty or not to be opened. -/
def sampleTree (opens : Bool) : DirTree where
  dirs := sampleDirs (if opens then some [] else none)
  small := by
    intro path es h
    cases opens <;> unfold sampleDirs at h <;> split_ifs at h <;> cases h <;> decide
  names := by
    intro path es h
    cases opens <;> unfold sampleDirs at h <;> split_ifs at h <;> cases h <;> decide

/-- The directory. -/
def sampleRoot : Stdio.CStr := ⟨[47], by decide, by decide⟩

/-- The name of the file. -/
def sampleName : Stdio.CStr := ⟨[66], by decide, by decide⟩

/-- A process with no open files. -/
def idle : Proc where
  fds := fun _ => none
  out := fun _ => 0

lemma free_idle : idle.free = maxFd := by
  rw [Proc.free]
  exact (congrArg Finset.card (Finset.filter_true_of_mem fun _ _ => rfl)).trans
    (Finset.card_range maxFd)

/-- The listing of the tree in which `A` is empty. -/
lemma walk_opens : walk (sampleTree true) (ufindMaxDepth + 1) idle.free sampleRoot.bytes =
    some [.entry [47] [65], .entry [47] [66]] := by
  rw [free_idle]
  rfl

/-- The listing of the tree in which `A` cannot be opened. -/
lemma walk_closed : walk (sampleTree false) (ufindMaxDepth + 1) idle.free sampleRoot.bytes =
    some [.entry [47] [65], .closed [47] [65], .entry [47] [66]] := by
  rw [free_idle]
  rfl

/-- An empty subdirectory is not in the way. -/
theorem finds_of_opens :
    Finds (sampleTree true) sampleRoot sampleName 256 idle := by
  refine (finds_iff (sampleTree true) sampleRoot sampleName 256 idle
    le_rfl ?_).mpr ?_
  · intro visits hwalk
    obtain rfl := Option.some.inj (walk_opens.symm.trans hwalk)
    decide
  · intro visits hwalk
    obtain rfl := Option.some.inj (walk_opens.symm.trans hwalk)
    exact ⟨by decide, fun v hv => Option.some.inj hv ▸ rfl⟩

/-- A subdirectory that cannot be opened hides the file behind it. -/
theorem not_finds_of_closed :
    ufindMaxPath ≤ 256 ∧
      (∀ visits, walk (sampleTree false) (ufindMaxDepth + 1)
        idle.free sampleRoot.bytes = some visits →
        ∀ v ∈ visits, v.path.length < ufindMaxPath) ∧
      ¬Finds (sampleTree false) sampleRoot sampleName 256 idle := by
  have hshort : ∀ visits, walk (sampleTree false) (ufindMaxDepth + 1)
    idle.free sampleRoot.bytes = some visits →
      ∀ v ∈ visits, v.path.length < ufindMaxPath := by
    intro visits hwalk
    obtain rfl := Option.some.inj (walk_closed.symm.trans hwalk)
    decide
  refine ⟨le_rfl, hshort, ?_⟩
  have hrec : wp (ufindRec (sampleTree false) sampleName.bytes 256 (ufindMaxDepth + 1)
      sampleRoot.bytes) (fun r p' =>
      p'.fds = idle.fds ∧ (r, p'.out) = result sampleName.bytes idle.out
        (walk (sampleTree false) (ufindMaxDepth + 1) idle.free sampleRoot.bytes))
          idle := wp_ufindRec le_rfl hshort
  obtain ⟨r, p', hrun, -, hr⟩ := hrec
  have hneg : r = -1 := (congrArg Prod.fst hr).trans (by rw [walk_closed]; rfl)
  rw [Finds, ufind, wp_iff_of_eq hrun, walk_closed]
  rintro ⟨-, hone, -⟩
  omega

end Ufind

end CoolFrost

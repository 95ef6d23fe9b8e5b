import TempSns.Dfs.Path

/-!
# Lookup in the mount table

`dfs_filesystem_lookup` of `components/dfs/src/dfs_fs.c`: the loop over the table keeps the longest
mount path so far that matches the path.
-/

namespace Dfs

open CString List Option

/-- The operations of a file system that the mount table uses: whether they are implemented. -/
structure FilesystemOps where
  mount : Bool
  unmount : Bool
  deriving DecidableEq, Repr

/-- `struct dfs_filesystem`; `none` is `NULL`. -/
structure Filesystem where
  path : Option (List UInt8)
  ops : Option FilesystemOps
  devId : Option ℕ
  deriving DecidableEq, Repr

/-! ## Lookup -/

def strncmpEq (a b : List UInt8) (n : ℕ) : Prop := (a ++ [0]).take n = (b ++ [0]).take n

instance (a b : List UInt8) (n : ℕ) : Decidable (strncmpEq a b n) :=
  inferInstanceAs (Decidable (_ = _))

/-- A round of the loop; `best` is `fs` with `prefixlen`. -/
def lookupStep (path : List UInt8) (best : Option Filesystem × ℕ) (iter : Filesystem) :
    Option Filesystem × ℕ :=
  match iter.path, iter.ops with
  | some fspath, some _ =>
    if fspath.length < best.2 ∨ ¬ strncmpEq fspath path fspath.length then best
    -- check next path separator
    else if 1 < fspath.length ∧ fspath.length < path.length ∧ path[fspath.length]? ≠ some slash then best
    else (some iter, fspath.length)
  | _, _ => best

def dfsFilesystemLookup (table : List Filesystem) (path : List UInt8) : Option Filesystem :=
  (table.foldl (lookupStep path) (none, 0)).1

/-- The file system is mounted on a path. -/
def Filesystem.MountedOn (fs : Filesystem) (fspath : List UInt8) : Prop :=
  fs.path = some fspath ∧ fs.ops ≠ none

/-- The mount path equals the path or is followed in it by a separator; the root matches every path. -/
def Matches (fspath path : List UInt8) : Prop :=
  fspath = path ∨ fspath ++ [slash] <+: path ∨ fspath = [slash]

/-- A canonical path as a C string. -/
structure CanonicalPath where
  chars : List UInt8
  canonical : Canonical chars
  nonzero : 0 ∉ chars

/-- A mount table whose mount paths are canonical. -/
structure MountTable where
  entries : List Filesystem
  canonical : ∀ fs ∈ entries, ∀ fspath, fs.MountedOn fspath → Canonical fspath ∧ 0 ∉ fspath

/-- Among the file systems of the list, `fs` has the longest mount path that matches. -/
structure Longest (list : List Filesystem) (path : List UInt8) (fs : Filesystem)
    (fspath : List UInt8) : Prop where
  mem : fs ∈ list
  mounted : fs.MountedOn fspath
  matching : Matches fspath path
  longest : ∀ fs' ∈ list, ∀ fspath', fs'.MountedOn fspath' → Matches fspath' path →
    fspath'.length ≤ fspath.length

def NoneMatches (list : List Filesystem) (path : List UInt8) : Prop :=
  ∀ fs ∈ list, ∀ fspath, fs.MountedOn fspath → ¬ Matches fspath path

variable {path fspath : List UInt8} {list : List Filesystem} {fs iter : Filesystem}

/-- A prefix is found by the comparison of its characters. -/
lemma strncmpEq_iff (hzero : 0 ∉ fspath) : strncmpEq fspath path fspath.length ↔ fspath <+: path := by
  rw [strncmpEq, take_left, prefix_iff_eq_take]
  rcases Nat.lt_or_ge path.length fspath.length with hlt | hle
  · -- a shorter path ends with a zero that the mount path does not have
    have hlong : (path ++ [0]).length ≤ fspath.length := by
      rw [length_append]
      exact hlt
    rw [take_of_length_le hlong, take_of_length_le hlt.le]
    refine ⟨fun heq => absurd ?_ hzero, fun heq => absurd (congrArg length heq) hlt.ne'⟩
    rw [heq]
    exact mem_append_right _ (mem_singleton_self 0)
  · rw [take_append_of_le_length hle]

/-- What the two tests of a round say about a canonical mount path. -/
lemma matches_iff (hpath : path.head? = some slash) (hcanon : fspath.head? = some slash) :
    Matches fspath path ↔ fspath <+: path ∧
      ¬ (1 < fspath.length ∧ fspath.length < path.length ∧ path[fspath.length]? ≠ some slash) := by
  constructor
  · rintro (rfl | ⟨rest, rfl⟩ | rfl)
    · exact ⟨prefix_refl _, fun h => absurd h.2.1 (lt_irrefl _)⟩
    · refine ⟨⟨slash :: rest, by simp⟩, fun h => h.2.2 ?_⟩
      simp
    · obtain ⟨rest, rfl⟩ := head?_eq_some_iff.mp hpath
      exact ⟨⟨rest, rfl⟩, fun h => absurd h.1 (lt_irrefl 1)⟩
  · rintro ⟨⟨rest, rfl⟩, hsep⟩
    by_cases hlong : 1 < fspath.length
    · rcases rest with _ | ⟨c, rest⟩
      · exact .inl (append_nil _).symm
      · -- the next character is a separator
        have hc : c = slash := by
          by_contra hne
          exact hsep ⟨hlong, by simp, by simpa using hne⟩
        exact .inr (.inl ⟨rest, by simp [hc]⟩)
    · obtain ⟨rest', rfl⟩ := head?_eq_some_iff.mp hcanon
      rw [length_cons, Nat.lt_add_left_iff_pos, not_lt, Nat.le_zero, length_eq_zero_iff] at hlong
      exact .inr (.inr (by rw [hlong]))

/-- What the loop has found in the list. -/
structure Best (list : List Filesystem) (path : List UInt8) (best : Option Filesystem × ℕ) : Prop where
  found : ∀ fs, best.1 = some fs → fs ∈ list ∧
    ∃ fspath, fs.MountedOn fspath ∧ Matches fspath path ∧ fspath.length = best.2
  zero : best.1 = none → best.2 = 0
  bound : ∀ fs ∈ list, ∀ fspath, fs.MountedOn fspath → Matches fspath path →
    best.1 ≠ none ∧ fspath.length ≤ best.2

variable {best : Option Filesystem × ℕ}

lemma Best.skip (h : Best list path best)
    (hskip : ∀ fspath, iter.MountedOn fspath → Matches fspath path → fspath.length < best.2) :
    Best (list ++ [iter]) path best := by
  refine ⟨fun fs hfs => ?_, h.zero, fun fs hfs fspath hon hmatch => ?_⟩
  · obtain ⟨hmem, hfound⟩ := h.found fs hfs
    exact ⟨mem_append_left _ hmem, hfound⟩
  · rcases mem_append.mp hfs with hmem | hlast
    · exact h.bound fs hmem fspath hon hmatch
    · obtain rfl := mem_singleton.mp hlast
      have hlt := hskip fspath hon hmatch
      exact ⟨fun hnone => absurd (h.zero hnone) (Nat.ne_zero_of_lt hlt), hlt.le⟩

lemma Best.take (h : Best list path best) (hon : iter.MountedOn fspath) (hmatch : Matches fspath path)
    (hlong : best.2 ≤ fspath.length) : Best (list ++ [iter]) path (some iter, fspath.length) := by
  refine ⟨fun fs hfs => ?_, nofun, fun fs hfs fspath' hon' hmatch' => ⟨nofun, ?_⟩⟩
  · obtain rfl := some.inj hfs
    exact ⟨mem_append_right _ (mem_singleton_self _), fspath, hon, hmatch, rfl⟩
  · rcases mem_append.mp hfs with hmem | hlast
    · exact (h.bound fs hmem fspath' hon' hmatch').2.trans hlong
    · obtain rfl := mem_singleton.mp hlast
      obtain rfl := some.inj (hon.1.symm.trans hon'.1)
      exact le_rfl

/-- A round keeps the longest match. -/
lemma Best.step (h : Best list path best) (hpath : path.head? = some slash)
    (hcanon : ∀ fspath, iter.MountedOn fspath → Canonical fspath ∧ 0 ∉ fspath) :
    Best (list ++ [iter]) path (lookupStep path best iter) := by
  unfold lookupStep
  split
  case h_1 fspath ops hfspath hops =>
    have hon : iter.MountedOn fspath := ⟨hfspath, hops ▸ some_ne_none ops⟩
    obtain ⟨hcanonical, hzero⟩ := hcanon fspath hon
    have hiff := matches_iff hpath hcanonical.absolute
    have hskip : (Matches fspath path → fspath.length < best.2) → Best (list ++ [iter]) path best :=
      fun hlt => h.skip fun _ hon' => some.inj (hfspath.symm.trans hon'.1) ▸ hlt
    split
    case isTrue hno =>
      rw [strncmpEq_iff hzero] at hno
      exact hskip fun hmatch => hno.resolve_right fun hne => hne (hiff.mp hmatch).1
    case isFalse hyes =>
      rw [not_or, not_not, not_lt, strncmpEq_iff hzero] at hyes
      split
      case isTrue hsep => exact hskip fun hmatch => absurd hsep (hiff.mp hmatch).2
      case isFalse hsep => exact h.take hon (hiff.mpr ⟨hyes.2, hsep⟩) hyes.1
  case h_2 hnone =>
    refine h.skip fun fspath hon _ => ?_
    obtain ⟨ops, hops⟩ := ne_none_iff_exists'.mp hon.2
    exact absurd hops (hnone fspath ops hon.1)

lemma Best.foldl (hpath : path.head? = some slash) (rest : List Filesystem)
    (hcanon : ∀ fs ∈ rest, ∀ fspath, fs.MountedOn fspath → Canonical fspath ∧ 0 ∉ fspath)
    (h : Best list path best) : Best (list ++ rest) path (rest.foldl (lookupStep path) best) := by
  induction rest generalizing list best with
  | nil =>
    rw [append_nil]
    exact h
  | cons iter rest ih =>
    rw [append_cons]
    obtain ⟨hiter, hrest⟩ := forall_mem_cons.mp hcanon
    exact ih hrest (h.step hpath hiter)

/-- The lookup returns the file system with the longest mount path that matches, and `NULL` exactly when
no mounted path matches. -/
theorem lookup_longest (table : MountTable) (path : CanonicalPath) :
    (∀ fs, dfsFilesystemLookup table.entries path.chars = some fs →
      ∃ fspath, Longest table.entries path.chars fs fspath) ∧
    (dfsFilesystemLookup table.entries path.chars = none ↔ NoneMatches table.entries path.chars) := by
  have hnil : Best [] path.chars (none, 0) := ⟨nofun, fun _ => rfl, nofun⟩
  have h := hnil.foldl path.canonical.absolute table.entries table.canonical
  refine ⟨fun fs hfs => ?_, fun hnone fs hfs fspath hon hmatch => ?_, fun hnone => ?_⟩
  · obtain ⟨hmem, fspath, hon, hmatch, hlen⟩ := h.found fs hfs
    refine ⟨fspath, hmem, hon, hmatch, fun fs' hfs' fspath' hon' hmatch' => ?_⟩
    rw [hlen]
    exact (h.bound fs' hfs' fspath' hon' hmatch').2
  · exact (h.bound fs hfs fspath hon hmatch).1 hnone
  · by_contra hsome
    obtain ⟨fs, hfs⟩ := ne_none_iff_exists'.mp hsome
    obtain ⟨hmem, fspath, hon, hmatch, -⟩ := h.found fs hfs
    exact hnone fs hmem fspath hon hmatch

/-- A table with a hole, the root and a file system on `/dev`. -/
def holeRootDev : List Filesystem :=
  [⟨none, none, none⟩, ⟨some [slash], some ⟨true, true⟩, none⟩,
    ⟨some [slash, 0x64, 0x65, 0x76], some ⟨true, true⟩, some 1⟩]

/-- The path `/dev/a` belongs to the file system on `/dev`. -/
theorem lookup_longest_dev : ∃ fs fspath, fs.devId = some 1 ∧
    dfsFilesystemLookup holeRootDev [slash, 0x64, 0x65, 0x76, slash, 0x61] = some fs ∧
    Longest holeRootDev [slash, 0x64, 0x65, 0x76, slash, 0x61] fs fspath := by
  have hcanon : ∀ fs ∈ holeRootDev, ∀ fspath, fs.MountedOn fspath →
      Canonical fspath ∧ 0 ∉ fspath := by
    intro fs hfs fspath hon
    simp only [holeRootDev, mem_cons, not_mem_nil, or_false] at hfs
    rcases hfs with rfl | rfl | rfl
    · cases hon.1
    · obtain rfl := some.inj hon.1
      exact ⟨⟨rfl, by decide, by decide⟩, by decide⟩
    · obtain rfl := some.inj hon.1
      exact ⟨⟨rfl, by decide, by decide⟩, by decide⟩
  have hpath : Canonical [slash, 0x64, 0x65, 0x76, slash, 0x61] := ⟨rfl, by decide, by decide⟩
  obtain ⟨fspath, hlongest⟩ := (lookup_longest ⟨holeRootDev, hcanon⟩ ⟨_, hpath, by decide⟩).1 _ rfl
  exact ⟨_, fspath, rfl, rfl, hlongest⟩

end Dfs

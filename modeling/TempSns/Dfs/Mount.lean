import TempSns.Dfs.Lookup
import TempSns.Lib.Transition

/-!
# Mounting and unmounting

`dfs_mount` and `dfs_unmount` of `components/dfs/src/dfs_fs.c`. `dfs_mount` stores the normalized path
but looks for the path as it was given, so the entries stay distinct as long as every path is given in
its normal form (`Normal`).
-/

namespace Dfs

open CString List Option Transition

/-- An entry that was cleared by `memset`. -/
def Filesystem.empty : Filesystem := ⟨none, none, none⟩

/-- A call of `dfs_mount`, with what the code outside replies. -/
structure MountCall where
  /-- `device_name`, with the device that `rt_device_find` finds. -/
  device : Option (Option ℕ)
  /-- The operations with the name `filesystemtype`. -/
  ops : Option FilesystemOps
  path : PathText
  alloc : Bool
  /-- The byte in front of the allocated block. -/
  below : UInt8
  workingDirectory : AbsolutePath
  /-- `dfs_file_open` finds the directory. -/
  isDirectory : Bool
  deviceOpens : Bool
  mounts : Bool

/-- The loop over the table: the first empty entry, or `none` if the path is mounted. -/
def findEmpty (path : List UInt8) : ℕ → Option ℕ → List Filesystem → Option (Option ℕ)
  | _, fs, [] => some fs
  | i, fs, iter :: rest =>
    if iter.ops = none then findEmpty path (i + 1) (fs <|> some i) rest
    else if iter.path = some path then none
    else findEmpty path (i + 1) fs rest

/-- `dfs_mount` with the full path: whether it returns 0, and the table. -/
def mountOn (table : List Filesystem) (call : MountCall) (ops : FilesystemOps) (fullpath : List UInt8) :
    Bool × List Filesystem :=
  if fullpath ≠ [slash] ∧ fullpath ≠ [slash, 0x64, 0x65, 0x76] ∧ ¬ call.isDirectory then (false, table)
  else
    match findEmpty call.path.chars 0 none table with
    | some (some i) =>
      -- register file system
      let registered := table.set i ⟨some fullpath, some ops, call.device.getD none⟩
      if call.device ≠ none ∧ ¬ call.deviceOpens ∨ ¬ call.mounts then (false, registered.set i .empty)
      else (true, registered)
    | _ => (false, table)

def dfsMount (table : List Filesystem) (call : MountCall) : Except Fault (Bool × List Filesystem) :=
  if call.device = some none then .ok (false, table)
  else
    match call.ops with
    | none => .ok (false, table)
    | some ops =>
      if ¬ ops.mount then .ok (false, table)
      else
        (dfsNormalizePath call.alloc call.below call.workingDirectory none call.path).map fun
          | none => (false, table)
          | some fullpath => mountOn table call ops fullpath

/-- `dfs_unmount` with the full path; `unmounts` says whether the driver accepts. -/
def unmountFrom (table : List Filesystem) (unmounts : Bool) (fullpath : List UInt8) : List Filesystem :=
  match table.findIdx? (fun fs => fs.path = some fullpath) with
  | none => table
  | some i =>
    if (table[i]?.bind (·.ops)).any (·.unmount) ∧ unmounts then table.set i .empty else table

inductive MountOp where
  | mount (call : MountCall)
  | unmount (path : PathText) (alloc : Bool) (below : UInt8) (workingDirectory : AbsolutePath)
    (unmounts : Bool)

def mountStep (table : List Filesystem) : MountOp → Option (List Filesystem)
  | .mount call => (dfsMount table call).toOption.map Prod.snd
  | .unmount path alloc below workingDirectory unmounts =>
    (dfsNormalizePath alloc below workingDirectory none path).toOption.map fun
      | none => table
      | some fullpath => unmountFrom table unmounts fullpath

/-- No two entries have the same path, and a `dfs_mount` that fails leaves the table as it was. -/
structure TableOk (table : List Filesystem) : Prop where
  distinct : (table.filterMap (·.path)).Nodup
  failed : ∀ call table', dfsMount table call = .ok (false, table') → table' = table

/-- The path of a mount is given in its normal form. -/
def Normal (_ : List Filesystem) : MountOp → Prop
  | .mount call => ∀ fullpath,
      dfsNormalizePath call.alloc call.below call.workingDirectory none call.path = .ok (some fullpath) →
      fullpath = call.path.chars
  | .unmount .. => True

variable {table table' list : List Filesystem} {path fullpath : List UInt8} {fs : Filesystem}
  {call : MountCall} {i : ℕ}

/-- The paths are distinct, and an entry without operations is empty. -/
structure TableInv (table : List Filesystem) : Prop where
  distinct : (table.filterMap (·.path)).Nodup
  cleared : ∀ fs ∈ table, fs.ops = none → fs = .empty

/-- The loop finds an entry without operations, and no other entry has the path as it was given. -/
lemma findEmpty_eq {j : ℕ} {fs : Option ℕ} {seen : List Filesystem} (hi : i = seen.length)
    (hfs : ∀ k, fs = some k → ∃ iter, (seen ++ list)[k]? = some iter ∧ iter.ops = none)
    (hfind : findEmpty path i fs list = some (some j)) :
    (∃ iter, (seen ++ list)[j]? = some iter ∧ iter.ops = none) ∧
      ∀ iter ∈ list, iter.ops ≠ none → iter.path ≠ some path := by
  induction list generalizing i fs seen with
  | nil =>
    obtain rfl := some.inj hfind
    exact ⟨hfs j rfl, nofun⟩
  | cons iter rest ih =>
    have hseen : i + 1 = (seen ++ [iter]).length := by
      rw [length_append, hi]
      rfl
    rw [append_cons] at hfs ⊢
    rw [findEmpty] at hfind
    split at hfind
    case isTrue hops =>
      have hfs' : ∀ k, (fs <|> some i) = some k →
          ∃ iter', (seen ++ [iter] ++ rest)[k]? = some iter' ∧ iter'.ops = none := by
        intro k hk
        cases fs with
        | some k' => exact hfs k hk
        | none =>
          obtain rfl := some.inj hk
          exact ⟨iter, by simp [hi], hops⟩
      obtain ⟨hslot, hrest⟩ := ih hseen hfs' hfind
      exact ⟨hslot, forall_mem_cons.mpr ⟨fun hne => absurd hops hne, hrest⟩⟩
    case isFalse =>
      obtain ⟨hne, hfind⟩ := ite_none_left_eq_some.mp hfind
      obtain ⟨hslot, hrest⟩ := ih hseen hfs hfind
      exact ⟨hslot, forall_mem_cons.mpr ⟨fun _ => hne, hrest⟩⟩

lemma exists_split (hfs : table[i]? = some fs) : ∃ pre post, table = pre ++ fs :: post ∧
    ∀ new, table.set i new = pre ++ new :: post := by
  obtain ⟨hi, rfl⟩ := List.getElem?_eq_some_iff.mp hfs
  refine ⟨table.take i, table.drop (i + 1), ?_, fun new => ?_⟩
  · rw [← drop_eq_getElem_cons hi, take_append_drop]
  · rw [set_eq_take_append_cons_drop, if_pos hi]

lemma distinct_cleared {pre post : List Filesystem}
    (h : ((pre ++ fs :: post).filterMap (·.path)).Nodup) :
    ((pre ++ .empty :: post).filterMap (·.path)).Nodup := by
  have hsub : ((pre ++ Filesystem.empty :: post).filterMap (·.path)).Sublist
      ((pre ++ fs :: post).filterMap (·.path)) := by
    rw [filterMap_append, filterMap_append, filterMap_cons_none rfl]
    exact (List.Sublist.refl _).append ((sublist_cons_self fs post).filterMap _)
  exact h.sublist hsub

section

variable (h : TableInv table)

include h

lemma TableInv.clear : TableInv (table.set i .empty) := by
  rcases Nat.lt_or_ge i table.length with hlt | hge
  · obtain ⟨pre, post, htable, hset⟩ := exists_split (getElem?_eq_getElem hlt)
    refine ⟨?_, fun fs hfs hops => ?_⟩
    · rw [hset]
      exact distinct_cleared (htable ▸ h.distinct)
    · rcases mem_or_eq_of_mem_set hfs with hmem | rfl
      · exact h.cleared fs hmem hops
      · rfl
  · rw [set_eq_of_length_le hge]
    exact h

lemma TableInv.register {new : Filesystem}
    (hslot : table[i]? = some .empty) (hnew : new.ops ≠ none) (hpath : new.path = some fullpath)
    (hfresh : ∀ fs ∈ table, fs.path ≠ some fullpath) : TableInv (table.set i new) := by
  obtain ⟨pre, post, htable, hset⟩ := exists_split hslot
  constructor
  · have hdistinct := h.distinct
    have hnotmem : fullpath ∉ table.filterMap (·.path) := by
      intro hmem
      obtain ⟨fs, hfs, hfspath⟩ := mem_filterMap.mp hmem
      exact hfresh fs hfs hfspath
    rw [htable, filterMap_append, filterMap_cons_none rfl] at hdistinct hnotmem
    rw [hset, filterMap_append, filterMap_cons_some hpath]
    exact nodup_middle.mpr (nodup_cons.mpr ⟨hnotmem, hdistinct⟩)
  · intro fs hfs hops
    rcases mem_or_eq_of_mem_set hfs with hmem | rfl
    · exact h.cleared fs hmem hops
    · exact absurd hops hnew

lemma TableInv.mountOn_cases {ops : FilesystemOps} :
    ((mountOn table call ops fullpath).1 = false → (mountOn table call ops fullpath).2 = table) ∧
    (fullpath = call.path.chars → TableInv (mountOn table call ops fullpath).2) := by
  unfold mountOn
  split
  · exact ⟨fun _ => rfl, fun _ => h⟩
  split
  case h_1 i hfind =>
    obtain ⟨⟨slot, hslot, hops⟩, hfresh⟩ :=
      findEmpty_eq (show 0 = ([] : List Filesystem).length from rfl) (by simp) hfind
    rw [nil_append] at hslot
    obtain rfl := h.cleared slot (mem_of_getElem? hslot) hops
    simp only
    split
    · -- the entry is cleared again
      have hset : table.set i Filesystem.empty = table := by
        obtain ⟨pre, post, htable, hset⟩ := exists_split hslot
        rw [hset, ← htable]
      rw [set_set, hset]
      exact ⟨fun _ => rfl, fun _ => h⟩
    · refine ⟨nofun, fun hpath =>
        h.register hslot (some_ne_none ops) rfl fun fs hfs hfspath => ?_⟩
      have hops' : fs.ops ≠ none := by
        intro hnone
        rw [h.cleared fs hfs hnone] at hfspath
        cases hfspath
      exact hfresh fs hfs hops' (hpath ▸ hfspath)
  case h_2 => exact ⟨fun _ => rfl, fun _ => h⟩

lemma TableInv.dfsMount_cases {ok : Bool} (hmount : dfsMount table call = .ok (ok, table')) :
    (ok = false → table' = table) ∧ (Normal table (.mount call) → TableInv table') := by
  unfold dfsMount at hmount
  split at hmount
  · obtain ⟨rfl, rfl⟩ := Prod.mk.inj (Except.ok.inj hmount)
    exact ⟨fun _ => rfl, fun _ => h⟩
  split at hmount
  · obtain ⟨rfl, rfl⟩ := Prod.mk.inj (Except.ok.inj hmount)
    exact ⟨fun _ => rfl, fun _ => h⟩
  split at hmount
  · obtain ⟨rfl, rfl⟩ := Prod.mk.inj (Except.ok.inj hmount)
    exact ⟨fun _ => rfl, fun _ => h⟩
  obtain ⟨result, hnormal, heq⟩ := map_eq_ok.mp hmount
  cases result with
  | none =>
    obtain ⟨rfl, rfl⟩ := Prod.mk.inj heq
    exact ⟨fun _ => rfl, fun _ => h⟩
  | some fullpath =>
    obtain ⟨hfailed, hinv⟩ := h.mountOn_cases
    refine ⟨fun hok => ?_, fun hcall => ?_⟩
    · rw [← hfailed ((congrArg Prod.fst heq).trans hok)]
      exact (congrArg Prod.snd heq).symm
    · have hsnd : (mountOn table call _ fullpath).2 = table' := congrArg Prod.snd heq
      exact hsnd ▸ hinv (hcall fullpath hnormal)

lemma TableInv.unmountFrom (unmounts : Bool) :
    TableInv (unmountFrom table unmounts fullpath) := by
  unfold Dfs.unmountFrom
  split
  · exact h
  · split
    · exact h.clear
    · exact h

end

def Initial (table : List Filesystem) : Prop := ∀ fs ∈ table, fs = .empty

lemma Initial.inv (h : Initial table) : TableInv table := by
  refine ⟨?_, fun fs hfs _ => h fs hfs⟩
  have hnil : table.filterMap (·.path) = [] := by
    rw [filterMap_eq_nil_iff]
    intro fs hfs
    rw [h fs hfs]
    rfl
  rw [hnil]
  exact nodup_nil

/-- In every run in which the paths of mounts are given in their normal form, the paths of the table are
distinct and a mount that fails leaves it as it was. -/
theorem tableOk_of_normal (hreach : Reach Initial mountStep Normal table) : TableOk table := by
  have hinv : TableInv table := by
    refine hreach.invariant (I := TableInv) (fun _ h => h.inv) ?_
    intro table op table' h hnormal hstep
    cases op with
    | mount call =>
      obtain ⟨⟨ok, table''⟩, hmount, rfl⟩ := map_eq_some_iff.mp hstep
      exact (h.dfsMount_cases (toOption_eq_some.mp hmount)).2 hnormal
    | unmount path alloc below workingDirectory unmounts =>
      obtain ⟨result, -, rfl⟩ := map_eq_some_iff.mp hstep
      cases result with
      | none => exact h
      | some fullpath => exact h.unmountFrom unmounts
  exact ⟨hinv.distinct, fun call table' hmount => (hinv.dfsMount_cases hmount).1 rfl⟩

/-- A call that mounts a file system without a device on a path that exists. -/
def plainMount (path : PathText) : MountCall :=
  ⟨none, some ⟨true, true⟩, path, true, 0, ⟨⟨[slash], by decide⟩, rfl⟩, true, true, true⟩

def devPath : PathText := ⟨[slash, 0x64, 0x65, 0x76], by decide⟩

def devPathSlash : PathText := ⟨[slash, 0x64, 0x65, 0x76, slash], by decide⟩

def tmpPath : PathText := ⟨[slash, 0x74, 0x6d, 0x70], by decide⟩

/-- The test of `Normal`. -/
def isNormal : MountOp → Bool
  | .mount call => (dfsNormalizePath call.alloc call.below call.workingDirectory none call.path).toOption.all
      (·.all (· == call.path.chars))
  | .unmount .. => true

lemma normal_of_isNormal {op : MountOp} (hop : isNormal op = true) : Normal table op := by
  cases op with
  | mount call =>
    intro fullpath hfull
    simp only [isNormal, hfull] at hop
    exact eq_of_beq hop
  | unmount => trivial

/-- `/dev` and `/tmp` are mounted, and a second mount of `/dev` is refused. -/
theorem tableOk_dev_tmp : ∃ table, Reach Initial mountStep Normal table ∧
    table.filterMap (·.path) = [devPath.chars, tmpPath.chars] ∧
    (dfsMount table (plainMount devPath)).toOption = some (false, table) ∧ TableOk table := by
  obtain ⟨table, hreach, hpaths, hrefused⟩ : ∃ table, Reach Initial mountStep Normal table ∧
      table.filterMap (·.path) = [devPath.chars, tmpPath.chars] ∧
      (dfsMount table (plainMount devPath)).toOption = some (false, table) :=
    exists_of_run (fun _ _ => normal_of_isNormal) (s := [.empty, .empty, .empty]) (by simp [Initial])
      [.mount (plainMount devPath), .mount (plainMount tmpPath), .mount (plainMount devPath)]
      (by decide +kernel)
  exact ⟨table, hreach, hpaths, hrefused, tableOk_of_normal hreach⟩

/-- `/dev` is mounted, and then `/dev/`: both entries have the path `/dev`. -/
theorem not_tableOk_twice : ∃ table, Reach Initial mountStep (fun _ _ => True) table ∧
    table.filterMap (·.path) = [devPath.chars, devPath.chars] ∧ ¬ TableOk table := by
  obtain ⟨table, hreach, hpaths⟩ : ∃ table, Reach Initial mountStep (fun _ _ => True) table ∧
      table.filterMap (·.path) = [devPath.chars, devPath.chars] :=
    exists_of_free_run (s := [.empty, .empty]) (by simp [Initial])
      [.mount (plainMount devPath), .mount (plainMount devPathSlash)] (by decide +kernel)
  refine ⟨table, hreach, hpaths, fun h => ?_⟩
  have hdistinct := h.distinct
  rw [hpaths] at hdistinct
  exact absurd hdistinct (by decide)

end Dfs

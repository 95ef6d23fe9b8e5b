import TempSns.Ipc.MemPool
import TempSns.Lib.Chain

/-!
# The blocks of a memory pool

A block of a pool is in the free list, once, or in the hands of one caller. Its first word is the link
of the list in the first case and the address of the pool in the second. `Split` is this invariant; it
has one rule for each critical section, and `BlocksOk` is what it says about the machine.

`rt_mp_init` takes the start of the memory for the first free block, whether or not a block fits. If
none does the counter is zero and the list is not empty.
-/

namespace Ipc

open SinglyLinked Function Word32 List

def BlockWord.next : BlockWord → Option ℤ
  | .link next => next
  | .owner => none

namespace MemPool

variable {T : Type} [DecidableEq T] {m m' : Machine T} {p p' : MemPool T} {t : T} {b : ℤ}
  {free held : List ℤ}

def blockAt (start : ℤ) (step i : ℕ) : ℤ := start + i * step

def blocks (p : MemPool T) : List ℤ :=
  (range p.blockTotalCount).map (blockAt p.startAddress (add p.blockSize 4))

/-- `block_free_count` is the length of the block list. Each block is in the list once and in nobody's
hands, or it is not in the list and in the hands of one caller, with the pool in its first word. -/
def BlocksOk (m : Machine T) : Prop :=
  ∃ free, Chain (fun b => (m.pool.word b).next) m.pool.blockList free ∧
    m.pool.blockFreeCount = free.length ∧
    (∀ b ∈ m.pool.blocks, (free.count b = 1 ∧ m.held.count b = 0) ∨
      (free.count b = 0 ∧ m.held.count b = 1 ∧ m.pool.word b = .owner)) ∧
    ∀ b, b ∈ free ∨ b ∈ m.held → b ∈ m.pool.blocks

/-- `rt_mp_alloc` returns, and a block that it hands out is in nobody's hands. -/
def HandsOutFree (m : Machine T) : Prop :=
  ∀ t time, ∃ p r, rtMpAlloc m.pool t time = .ok (p, r) ∧ ∀ b, r = .block b → b ∉ m.held

/-- No waiting thread times out, and only allocated blocks are freed. -/
def Proper (m : Machine T) : Act T → Prop
  | .timeout _ => False
  | .free b => b ∈ m.held
  | _ => True

/-! ## Invariant -/

/-- The blocks are split into those in the list and those in the hands of callers. -/
structure Split (p : MemPool T) (free held : List ℤ) : Prop where
  list : Chain (fun b => (p.word b).next) p.blockList free
  count : p.blockFreeCount = free.length
  links : ∀ b ∈ free, ∃ next, p.word b = .link next
  owners : ∀ b ∈ held, p.word b = .owner
  perm : (free ++ held).Perm p.blocks
  nodup : (free ++ held).Nodup

namespace Split

omit [DecidableEq T] in
lemma congr (h : Split p free held) (hstart : p'.startAddress = p.startAddress)
    (hsize : p'.blockSize = p.blockSize) (htotal : p'.blockTotalCount = p.blockTotalCount)
    (hlist : p'.blockList = p.blockList) (hcount : p'.blockFreeCount = p.blockFreeCount)
    (hword : p'.word = p.word) : Split p' free held := by
  have hblocks : p'.blocks = p.blocks := by
    rw [blocks, hstart, hsize, htotal]
    rfl
  exact ⟨by rw [hlist, hword]; exact h.list, hcount.trans h.count, by rw [hword]; exact h.links,
    by rw [hword]; exact h.owners, by rw [hblocks]; exact h.perm, h.nodup⟩

lemma next_update {word : ℤ → BlockWord} {w : BlockWord} : (fun x => (update word b w x).next) =
      update (fun x => (word x).next) b w.next := by
  funext x
  by_cases hx : x = b
  · rw [hx, update_self, update_self]
  · rw [update_of_ne hx, update_of_ne hx]

omit [DecidableEq T] in
lemma take (h : Split p (b :: free) held) : Split { p with
        blockFreeCount := p.blockFreeCount - 1
        blockList := (p.word b).next
        word := update p.word b .owner } free (b :: held) := by
  have hcons : (b :: (free ++ held)).Nodup := h.nodup
  have hnot : b ∉ free ∧ b ∉ held :=
    not_or.mp (mt mem_append.mpr (nodup_cons.mp hcons).1)
  have hmove : (free ++ b :: held).Perm (b :: (free ++ held)) := perm_middle
  constructor
  · change Chain (fun x => (update p.word b .owner x).next) _ free
    rw [next_update]
    exact h.list.2.update hnot.1 _
  · exact Nat.sub_eq_of_eq_add h.count
  · intro x hx
    have hne : x ≠ b := fun heq => hnot.1 (heq ▸ hx)
    obtain ⟨next, hnext⟩ := h.links x (mem_cons_of_mem b hx)
    exact ⟨next, (update_of_ne hne _ _).trans hnext⟩
  · intro x hx
    by_cases hxb : x = b
    · rw [hxb]
      exact update_self _ _ _
    · have howner := h.owners x ((mem_cons.mp hx).resolve_left hxb)
      exact (update_of_ne hxb _ _).trans howner
  · exact hmove.trans h.perm
  · exact hmove.nodup_iff.mpr h.nodup

section

variable (h : Split p free held)

include h

omit [DecidableEq T] in
lemma linkBlock (hb : b ∈ held) : Split (Ipc.linkBlock p b) (b :: free) (held.erase b) := by
  have hfree : b ∉ free := fun hmem => disjoint_of_nodup_append h.nodup hmem hb
  have hheld : held.Nodup := h.nodup.of_append_right
  have hmove : (b :: free ++ held.erase b).Perm (free ++ held) :=
    perm_middle.symm.trans ((perm_cons_erase hb).symm.append_left free)
  constructor
  · change Chain (fun x => (update p.word b (.link p.blockList) x).next) (some b) (b :: free)
    rw [next_update]
    exact h.list.push hfree
  · exact congrArg (· + 1) h.count
  · intro x hx
    by_cases hxb : x = b
    · exact ⟨p.blockList, by rw [hxb]; exact update_self _ _ _⟩
    · obtain ⟨next, hnext⟩ := h.links x ((mem_cons.mp hx).resolve_left hxb)
      exact ⟨next, (update_of_ne hxb _ _).trans hnext⟩
  · intro x hx
    have hxb : x ≠ b := fun heq => hheld.not_mem_erase (heq ▸ hx)
    exact (update_of_ne hxb _ _).trans (h.owners x (mem_of_mem_erase hx))
  · exact hmove.trans h.perm
  · exact hmove.nodup_iff.mpr h.nodup

lemma resumeWaiter (hok : resumeWaiter p = .ok p') : Split p' free held := by
  unfold Ipc.resumeWaiter at hok
  split at hok
  case isTrue =>
    split at hok
    case h_1 => cases hok; exact h.congr rfl rfl rfl rfl rfl rfl
    case h_2 => cases hok
  case isFalse => cases hok; exact h

lemma rtMpFree (hb : b ∈ held) (hok : rtMpFree p b = .ok p') :
    Split p' (b :: free) (held.erase b) := by
  unfold Ipc.rtMpFree at hok
  rw [h.owners b hb] at hok
  exact (h.linkBlock hb).resumeWaiter hok

lemma rtMpAlloc (t : T) (time : Int32) : ∃ p' r, rtMpAlloc p t time = .ok (p', r) ∧
      ((∃ b rest, r = .block b ∧ b ∉ held ∧ Split p' rest (b :: held)) ∨
        ((∀ b, r ≠ .block b) ∧ Split p' free held)) := by
  unfold Ipc.rtMpAlloc
  by_cases hzero : p.blockFreeCount = 0
  · rw [if_pos hzero]
    by_cases htime : time = 0
    · rw [if_pos htime]
      exact ⟨_, _, rfl, .inr ⟨nofun, h.congr rfl rfl rfl rfl rfl rfl⟩⟩
    · rw [if_neg htime]
      exact ⟨_, _, rfl, .inr ⟨nofun, h.congr rfl rfl rfl rfl rfl rfl⟩⟩
  · rw [if_neg hzero]
    obtain ⟨b, rest, rfl⟩ := exists_cons_of_length_pos (Nat.pos_of_ne_zero (h.count ▸ hzero))
    obtain ⟨next, hnext⟩ := h.links b mem_cons_self
    have htake := h.take
    rw [hnext] at htake
    have hheld : b ∉ held := fun hmem =>
      (nodup_cons.mp h.nodup).1 (mem_append_right rest hmem)
    have hlist : p.blockList = some b := h.list.1
    simp only [hlist, hnext]
    exact ⟨_, _, rfl, .inl ⟨b, rest, rfl, hheld, htake⟩⟩

end

section

variable (h : Split m.pool free m.held)

include h

lemma enter {time : Int32} (hok : enter m t time = some m') :
    ∃ free', Split m'.pool free' m'.held := by
  obtain ⟨p', r, halloc, hres⟩ := h.rtMpAlloc t time
  unfold MemPool.enter at hok
  rw [halloc] at hok
  rcases hres with ⟨b, rest, rfl, -, h'⟩ | ⟨hnone, h'⟩
  · cases hok
    exact ⟨rest, h'⟩
  · cases r with
    | block b => exact absurd rfl (hnone b)
    | null => cases hok; exact ⟨free, h'⟩
    | waits => cases hok; exact ⟨free, h'⟩

lemma step {a : Act T} (ha : Proper m a)
    (hok : step m a = some m') : ∃ free', Split m'.pool free' m'.held := by
  cases a with
  | alloc t time =>
    simp only [MemPool.step] at hok
    split at hok
    case isTrue => exact h.enter hok
    case isFalse => cases hok
  | free b =>
    obtain ⟨p, hp, rfl⟩ := Option.map_eq_some_iff.mp hok
    exact ⟨b :: free, h.rtMpFree ha (toOption_eq_some.mp hp)⟩
  | timeout t => exact ha.elim
  | finish t elapsed =>
    simp only [MemPool.step] at hok
    split at hok
    case isTrue =>
      have hwake : Split { m.pool with waits := m.pool.waits.wake t } free m.held :=
        h.congr rfl rfl rfl rfl rfl rfl
      split at hok
      case isTrue =>
        exact Split.enter (m := { m with pool := { m.pool with waits := m.pool.waits.wake t } })
          hwake hok
      case isFalse => cases hok; exact ⟨free, hwake⟩
    case isFalse => cases hok

omit [DecidableEq T] in
lemma blocksOk : BlocksOk m := by
  refine ⟨free, h.list, h.count, fun b hb => ?_, fun b hb => ?_⟩
  · have hcount : free.count b + m.held.count b = 1 := by
      rw [← count_append]
      exact count_eq_one_of_mem h.nodup (h.perm.mem_iff.mpr hb)
    by_cases hheld : b ∈ m.held
    · have hpos := count_pos_iff.mpr hheld
      exact .inr ⟨by omega, by omega, h.owners b hheld⟩
    · have hzero := count_eq_zero.mpr hheld
      exact .inl ⟨by omega, hzero⟩
  · exact h.perm.mem_iff.mp (mem_append.mpr hb)

lemma handsOutFree : HandsOutFree m := by
  intro t time
  obtain ⟨p', r, halloc, hres⟩ := h.rtMpAlloc t time
  refine ⟨p', r, halloc, fun b hb => ?_⟩
  rcases hres with ⟨b', rest, rfl, hnot, -⟩ | ⟨hnone, -⟩
  · obtain rfl := AllocResult.block.inj hb
    exact hnot
  · exact absurd hb (hnone b)

end

end Split

/-! ## After `rt_mp_init` -/

lemma blockAt_injective (start : ℤ) {step : ℕ} (hstep : step ≠ 0) :
    Function.Injective (blockAt start step) := by
  intro i j heq
  have hmul : (i : ℤ) * step = j * step := Int.add_left_cancel heq
  exact_mod_cast Int.eq_of_mul_eq_mul_right (by exact_mod_cast hstep) hmul

/-- The loop of `rt_mp_init` has linked the first `n` blocks. -/
lemma linkBlocks_blockAt {start : ℤ} {step : ℕ} (hstep : step ≠ 0) (word : ℤ → BlockWord)
    {n i : ℕ} (hi : i < n) :
    linkBlocks start step word n (blockAt start step i) =
      .link (some (blockAt start step (i + 1))) := by
  induction n with
  | zero => omega
  | succ n ih =>
    change update _ (blockAt start step n) _ _ = _
    by_cases hin : i = n
    · rw [hin, update_self, blockAt]
      push_cast
      rfl
    · rw [update_of_ne ((blockAt_injective start hstep).ne hin)]
      exact ih (by omega)

omit [DecidableEq T] in
lemma split_rtMpInit (start : ℤ) {size blockSize : ℕ} (word : ℤ → BlockWord) (waits : Waits T Unit)
    (hfits : 0 < alignDown size 4 / add (alignUp blockSize 4) 4) :
    Split (rtMpInit start size blockSize word waits)
      (rtMpInit start size blockSize word waits).blocks [] := by
  generalize hstep : add (alignUp blockSize 4) 4 = step at hfits
  have hstep0 : step ≠ 0 := by
    rintro rfl
    simp at hfits
  have hinj := blockAt_injective start hstep0
  obtain ⟨n, hn⟩ := Nat.exists_eq_succ_of_ne_zero hfits.ne'
  -- the words after the loop and the store of `RT_NULL`
  have hword : (rtMpInit start size blockSize word waits).word =
      update (linkBlocks start step word (n + 1)) (blockAt start step n) (.link none) := by
    simp only [rtMpInit, hstep, hn, blockAt]
    congr 1
    push_cast
    ring
  have hblocks : (rtMpInit start size blockSize word waits).blocks =
      (range' 0 (n + 1)).map (blockAt start step) := by
    simp only [blocks, rtMpInit, hstep, hn]
    rw [range_eq_range']
  have hlink : ∀ i < n, (rtMpInit start size blockSize word waits).word (blockAt start step i) =
      .link (some (blockAt start step (i + 1))) := by
    intro i hi
    rw [hword, update_of_ne (hinj.ne (by omega))]
    exact linkBlocks_blockAt hstep0 word (by omega)
  have hlast : (rtMpInit start size blockSize word waits).word (blockAt start step n) =
      .link none := by
    rw [hword, update_self]
  constructor
  · rw [hblocks]
    have hfirst : (rtMpInit start size blockSize word waits).blockList =
        some (blockAt start step 0) := by simp [rtMpInit, blockAt]
    rw [hfirst]
    refine chain_range' (fun i _ hi => ?_) ?_
    · rw [hlink i (by omega)]
      rfl
    · rw [Nat.zero_add, hlast]
      rfl
  · simp [blocks, rtMpInit]
  · intro b hb
    rw [hblocks] at hb
    obtain ⟨i, hi, rfl⟩ := mem_map.mp hb
    have hlt : i < n + 1 := by simpa using hi
    by_cases hin : i = n
    · exact ⟨none, hin ▸ hlast⟩
    · exact ⟨_, hlink i (by omega)⟩
  · simp
  · rw [append_nil]
  · rw [append_nil, hblocks]
    exact (nodup_range' ..).map hinj

/-- The machine after `rt_mp_init`. -/
def start (addr : ℤ) (size blockSize : ℕ) (word : ℤ → BlockWord) (waits : Waits T Unit)
    (time : T → Int32) : Machine T :=
  ⟨rtMpInit addr size blockSize word waits, time, []⟩

/-- In every state of every run without timeouts the blocks are in the list or in the hands of one
caller, and none is handed out twice, iff a block fits into the memory of the pool. -/
theorem blocksOk_iff (addr : ℤ) (size blockSize : ℕ) (word : ℤ → BlockWord) (waits : Waits T Unit)
    (time : T → Int32) :
    (∀ m, Transition.Reach (· = start addr size blockSize word waits time) step Proper m →
        BlocksOk m ∧ HandsOutFree m) ↔
      add (alignUp blockSize 4) 4 ≠ 0 ∧ add (alignUp blockSize 4) 4 ≤ alignDown size 4 := by
  have hcond : (add (alignUp blockSize 4) 4 ≠ 0 ∧ add (alignUp blockSize 4) 4 ≤ alignDown size 4) ↔
        0 < alignDown size 4 / add (alignUp blockSize 4) 4 := by
    rw [Nat.div_pos_iff, Nat.pos_iff_ne_zero]
  rw [hcond]
  constructor
  · intro hall
    by_contra hzero
    obtain ⟨⟨free, hlist, hcount, -⟩, -⟩ := hall _ (.init rfl)
    -- the list starts at the start of the memory, the counter is zero
    have hnil : free = [] := by
      rw [← length_eq_zero_iff, ← hcount]
      exact Nat.eq_zero_of_not_pos hzero
    rw [hnil] at hlist
    cases hlist
  · intro hfits m hm
    obtain ⟨free, hsplit⟩ := hm.invariant (I := fun m => ∃ free, Split m.pool free m.held)
      (by rintro m rfl; exact ⟨_, split_rtMpInit addr word waits hfits⟩)
      fun _ _ _ ⟨_, h⟩ ha hok => h.step ha hok
    exact ⟨hsplit.blocksOk, hsplit.handsOutFree⟩

/-- Four bytes of memory have no room for a block of four bytes and its word. The start of the memory is
in the list all the same. -/
theorem not_blocksOk_empty : ∃ m : Machine Bool, Transition.Reach Initial step Proper m ∧
    m.pool.blockFreeCount = 0 ∧ m.pool.blockList = some 0 ∧ ¬ BlocksOk m := by
  let m : Machine Bool := start 0 4 4 (fun _ => .owner)
    { thread := fun _ => ⟨10, .eok, .running⟩, suspend := fun _ => [], flag := fun _ => .fifo }
    fun _ => 0
  have hcount : m.pool.blockFreeCount = 0 := by decide +kernel
  refine ⟨m, .init ⟨⟨_, _, _, _, _, rfl⟩, fun _ => rfl, rfl⟩, hcount, rfl, ?_⟩
  rintro ⟨free, hlist, hlength, -⟩
  have hnil : free = [] := length_eq_zero_iff.mp (hlength.symm.trans hcount)
  rw [hnil] at hlist
  cases hlist

end MemPool

end Ipc

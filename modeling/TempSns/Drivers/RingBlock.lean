import Mathlib.Tactic
import Mathlib.Order.CompletePartialOrder
import TempSns.Lib.Exec
import TempSns.Lib.Rotation
import TempSns.Lib.Transition
import TempSns.Lib.Word32

/-!
# Ring block buffers

Embedding of `components/drivers/src/ringblk_buf.c`. A block is named by its index in `blk_set`, and
`blk_list` is the list of these indices.

The areas of the blocks of `blk_list` follow each other in the ring, so the list is a rotation of a
list that is ordered by address (`Rotation.Rotated`). `rt_rbb_blk_alloc` finds the room for a block
from the first and the last block of the list. It does not see the blocks that
`rt_rbb_blk_queue_get` has taken out of the list, and it takes an empty block that ends where the first
block starts for a block in front of it. `FirstFits` and `AllocFits` exclude this.
-/

namespace Drivers

open Rotation Function Word32 List Option Transition

inductive RbbStatus where
  | unused
  | inited
  | put
  | get
  deriving DecidableEq, Repr

structure RbbBlk where
  status : RbbStatus
  size : ℕ
  buf : ℕ
  deriving DecidableEq, Repr

structure Rbb where
  buf : ℕ
  bufSize : ℕ
  blkSet : ℕ → RbbBlk
  blkMaxNum : ℕ
  blkList : List ℕ

/-- The first block and the number of the blocks. -/
structure RbbBlkQueue where
  blocks : ℕ
  blkNum : ℕ
  deriving DecidableEq, Repr

def rtRbbInit (buf bufSize : ℕ) (blockSet : ℕ → RbbBlk) (blkMaxNum : ℕ) : Rbb where
  buf := buf
  bufSize := bufSize
  blkSet := fun i => if i < blkMaxNum then { blockSet i with status := .unused } else blockSet i
  blkMaxNum := blkMaxNum
  blkList := []

def findEmptyBlkInSet (rbb : Rbb) : Option ℕ :=
  (range rbb.blkMaxNum).find? fun i => (rbb.blkSet i).status = .unused

namespace Rbb

/-- `block->status = status`. -/
def setStatus (rbb : Rbb) (i : ℕ) (status : RbbStatus) : Rbb :=
  { rbb with blkSet := update rbb.blkSet i { rbb.blkSet i with status := status } }

/-- `rt_slist_remove` of the block `i`. -/
def remove (rbb : Rbb) (i : ℕ) : Rbb := { rbb with blkList := rbb.blkList.erase i }

/-- The block `i` is appended to the list with the area of `size` bytes at `buf`. -/
def place (rbb : Rbb) (i buf size : ℕ) : Rbb :=
  { rbb with
    blkSet := update rbb.blkSet i ⟨.inited, size, buf⟩
    blkList := rbb.blkList ++ [i] }

end Rbb

/-- The address of a new block of `blkSize` bytes behind the list with the first block `head` and the
last block `tail`. -/
def findRoom (rbb : Rbb) (head tail : RbbBlk) (blkSize : ℕ) : Option ℕ :=
  if head.buf ≤ tail.buf then
    let empty1 := sub (add rbb.buf rbb.bufSize) (add tail.buf tail.size)
    let empty2 := sub head.buf rbb.buf
    if empty1 ≥ blkSize then some (add tail.buf tail.size)
    else if empty2 ≥ blkSize then some rbb.buf
    -- no space
    else none
  else
    let empty1 := sub head.buf (add tail.buf tail.size)
    if empty1 ≥ blkSize then some (add tail.buf tail.size)
    -- no space
    else none

/-- `rt_rbb_blk_alloc`, with the new block. -/
def rtRbbBlkAlloc (rbb : Rbb) (blkSize : ℕ) : Except Fault (Rbb × Option ℕ) :=
  if blkSize < 2 ^ 24 then
    match findEmptyBlkInSet rbb with
    | none => .ok (rbb, none)
    | some new =>
      if rbb.blkList.length < rbb.blkMaxNum then
        match rbb.blkList.head?, rbb.blkList.getLast? with
        | some head, some tail =>
          match findRoom rbb (rbb.blkSet head) (rbb.blkSet tail) blkSize with
          | some buf => .ok (rbb.place new buf blkSize, some new)
          | none => .ok (rbb, none)
        -- the list is empty
        | _, _ => .ok (rbb.place new rbb.buf blkSize, some new)
      else .ok (rbb, none)
  else .error .assertion

def rtRbbBlkPut (rbb : Rbb) (i : ℕ) : Except Fault Rbb :=
  if i < rbb.blkMaxNum then
    if (rbb.blkSet i).status = .inited then .ok (rbb.setStatus i .put) else .error .assertion
  else .error .badIndex

/-- `rt_rbb_blk_get`, with the block. -/
def rtRbbBlkGet (rbb : Rbb) : Rbb × Option ℕ :=
  match rbb.blkList.find? fun i => (rbb.blkSet i).status = .put with
  | some i => (rbb.setStatus i .get, some i)
  -- not found
  | none => (rbb, none)

def rtRbbBlkFree (rbb : Rbb) (i : ℕ) : Except Fault Rbb :=
  if i < rbb.blkMaxNum then
    if (rbb.blkSet i).status = .unused then .error .assertion
    else .ok ((rbb.remove i).setStatus i .unused)
  else .error .badIndex

/-- The variables of the loop of `rt_rbb_blk_queue_get`. -/
structure QueueLoop where
  rbb : Rbb
  queue : RbbBlkQueue
  dataTotalSize : ℕ

/-- The end of a round of the loop: the block is taken out of the list. -/
def QueueLoop.take (s : QueueLoop) (block : ℕ) : QueueLoop where
  rbb := (s.rbb.remove block).setStatus block .get
  queue := { s.queue with blkNum := s.queue.blkNum + 1 }
  dataTotalSize := add s.dataTotalSize (s.rbb.blkSet block).size

/-- The rounds of the loop of `rt_rbb_blk_queue_get` for the rest of the list. -/
def queueGetLoop (queueDataLen : ℕ) (s : QueueLoop) (lastBlock : Option ℕ) : List ℕ → QueueLoop
  | [] => s
  | block :: nodes =>
    match lastBlock with
    | none =>
      if (s.rbb.blkSet block).status = .put then
        -- save the first put status block to queue
        queueGetLoop queueDataLen ({ s with queue := ⟨block, 0⟩ }.take block) (some block) nodes
      -- the first block must be put status
      else queueGetLoop queueDataLen s none nodes
    | some last =>
      if (s.rbb.blkSet block).status ≠ .put ∨
          (s.rbb.blkSet last).buf > (s.rbb.blkSet block).buf ∨
          add s.dataTotalSize (s.rbb.blkSet block).size > queueDataLen then s
      else queueGetLoop queueDataLen (s.take block) (some block) nodes

/-- The queue is an argument that the call overwrites. -/
def rtRbbBlkQueueGet (rbb : Rbb) (queueDataLen : ℕ) (blkQueue : RbbBlkQueue) :
    Rbb × RbbBlkQueue × ℕ :=
  let s := queueGetLoop queueDataLen ⟨rbb, blkQueue, 0⟩ none rbb.blkList
  (s.rbb, s.queue, s.dataTotalSize)

def rtRbbBlkQueueFree (rbb : Rbb) (blkQueue : RbbBlkQueue) : Except Fault Rbb :=
  (range blkQueue.blkNum).foldlM (fun rbb i => rtRbbBlkFree rbb (blkQueue.blocks + i)) rbb

namespace Rbb

/-! ## Runs -/

inductive Act where
  | alloc (blkSize : ℕ)
  | put (i : ℕ)
  | get
  | free (i : ℕ)
  | queueGet (queueDataLen : ℕ) (blkQueue : RbbBlkQueue)
  | queueFree (blkQueue : RbbBlkQueue)

/-- The buffer after a call that returns. -/
def step (rbb : Rbb) : Act → Option Rbb
  | .alloc blkSize => ((rtRbbBlkAlloc rbb blkSize).map Prod.fst).toOption
  | .put i => (rtRbbBlkPut rbb i).toOption
  | .get => some (rtRbbBlkGet rbb).1
  | .free i => (rtRbbBlkFree rbb i).toOption
  | .queueGet queueDataLen blkQueue => some (rtRbbBlkQueueGet rbb queueDataLen blkQueue).1
  | .queueFree blkQueue => (rtRbbBlkQueueFree rbb blkQueue).toOption

/-- A buffer after `rt_rbb_init`. The memory of the buffer ends below the end of the address
space. -/
def Initial (rbb : Rbb) : Prop :=
  ∃ buf bufSize blockSet blkMaxNum, buf + bufSize < 2 ^ 32 ∧
    rbb = rtRbbInit buf bufSize blockSet blkMaxNum

/-- The block `i` is not in the state `RT_RBB_BLK_UNUSED`. -/
def Used (rbb : Rbb) (i : ℕ) : Prop := i < rbb.blkMaxNum ∧ (rbb.blkSet i).status ≠ .unused

instance (rbb : Rbb) (i : ℕ) : Decidable (rbb.Used i) := inferInstanceAs (Decidable (_ ∧ _))

def area (rbb : Rbb) (i : ℕ) : Set ℕ :=
  Set.Ico (rbb.blkSet i).buf ((rbb.blkSet i).buf + (rbb.blkSet i).size)

def AreasDisjoint (rbb : Rbb) : Prop :=
  ∀ i j, rbb.Used i → rbb.Used j → i ≠ j → Disjoint (rbb.area i) (rbb.area j)

/-- A block is allocated only while all blocks in use are in the list, it is not empty, and the first
block of the list is not larger than the buffer. -/
def AllocFits (rbb : Rbb) : Act → Prop
  | .alloc blkSize => 0 < blkSize ∧ (rbb.blkList = [] → blkSize ≤ rbb.bufSize) ∧
      ∀ i, rbb.Used i → i ∈ rbb.blkList
  | _ => True

/-- The area of the block `i` lies in the buffer. -/
def Inside (rbb : Rbb) (i : ℕ) : Prop :=
  rbb.buf ≤ (rbb.blkSet i).buf ∧
    (rbb.blkSet i).buf + (rbb.blkSet i).size ≤ rbb.buf + rbb.bufSize

/-- A block that is allocated is not empty, and the first block of the list is not larger than the
buffer. -/
def FirstFits (rbb : Rbb) : Act → Prop
  | .alloc blkSize => 0 < blkSize ∧ (rbb.blkList = [] → blkSize ≤ rbb.bufSize)
  | _ => True

/-! ## Order of the areas -/

variable {rbb rbb' : Rbb} {i j n : ℕ} {listed : Prop} {s : QueueLoop} {status : RbbStatus} {a : Act}

lemma AllocFits.firstFits (h : AllocFits rbb a) : FirstFits rbb a := by
  cases a with
  | alloc n => exact ⟨h.1, h.2.1⟩
  | _ => trivial

/-- The area of `i` ends where the area of `j` starts, or before. -/
def Before (rbb : Rbb) (i j : ℕ) : Prop :=
  (rbb.blkSet i).buf + (rbb.blkSet i).size ≤ (rbb.blkSet j).buf

/-- The invariant: the blocks of the list follow each other in the ring, and the areas of all blocks in
use lie in the buffer. If blocks are allocated only while all blocks in use are `listed`, these areas
are disjoint. -/
structure Inv (listed : Prop) (rbb : Rbb) : Prop where
  end_lt : rbb.buf + rbb.bufSize < 2 ^ 32
  used : ∀ i ∈ rbb.blkList, rbb.Used i
  nodup : rbb.blkList.Nodup
  pos : ∀ i ∈ rbb.blkList, 0 < (rbb.blkSet i).size
  inside : ∀ i, rbb.Used i → rbb.Inside i
  rotated : Rotated rbb.Before rbb.blkList
  disjoint : listed → rbb.AreasDisjoint

lemma Before.disjoint (h : rbb.Before i j) : Disjoint (rbb.area i) (rbb.area j) := by
  rw [Set.disjoint_left]
  intro a hi hj
  have hle : (rbb.blkSet i).buf + (rbb.blkSet i).size ≤ (rbb.blkSet j).buf := h
  rw [area, Set.mem_Ico] at hi hj
  omega

/-- Only the status of blocks differs. -/
structure SameAreas (rbb rbb' : Rbb) : Prop where
  buf : rbb'.buf = rbb.buf
  bufSize : rbb'.bufSize = rbb.bufSize
  blkMaxNum : rbb'.blkMaxNum = rbb.blkMaxNum
  area : ∀ i, (rbb'.blkSet i).buf = (rbb.blkSet i).buf ∧ (rbb'.blkSet i).size = (rbb.blkSet i).size

lemma sameAreas_setStatus (rbb : Rbb) (i : ℕ) (status : RbbStatus) :
    SameAreas rbb (rbb.setStatus i status) := by
  refine ⟨rfl, rfl, rfl, fun j => ?_⟩
  by_cases hij : j = i
  · subst hij
    simp [setStatus]
  · simp [setStatus, hij]

/-- The invariant after a change of the status of blocks, if no block comes into use and the blocks of
the list stay in use. -/
lemma Inv.of_sameAreas (h : Inv listed rbb) (hsame : SameAreas rbb rbb')
    (hlist : rbb'.blkList = rbb.blkList) (hused : ∀ i, rbb'.Used i → rbb.Used i)
    (hstay : ∀ i ∈ rbb.blkList, rbb'.Used i) : Inv listed rbb' := by
  have hbefore : ∀ i j, rbb.Before i j → rbb'.Before i j := by
    intro i j hij
    rw [Before, (hsame.area i).1, (hsame.area i).2, (hsame.area j).1]
    exact hij
  refine ⟨?_, ?_, ?_, ?_, fun i hi => ?_, ?_, ?_⟩
  · rw [hsame.buf, hsame.bufSize]
    exact h.end_lt
  · rw [hlist]
    exact hstay
  · rw [hlist]
    exact h.nodup
  · rw [hlist]
    intro i hi
    rw [(hsame.area i).2]
    exact h.pos i hi
  · rw [Inside, hsame.buf, hsame.bufSize, (hsame.area i).1, (hsame.area i).2]
    exact h.inside i (hused i hi)
  · rw [hlist]
    exact h.rotated.imp fun i _ j _ => hbefore i j
  · intro hlisted i j hi hj hij
    have harea : ∀ i, rbb'.area i = rbb.area i := by
      intro i
      rw [Rbb.area, (hsame.area i).1, (hsame.area i).2, Rbb.area]
    rw [harea, harea]
    exact h.disjoint hlisted i j (hused i hi) (hused j hj) hij

lemma used_setStatus_of_ne (hij : j ≠ i) : (rbb.setStatus i status).Used j ↔ rbb.Used j := by
  simp [Used, setStatus, hij]

section

variable (h : Inv listed rbb)

include h

/-- The status of a block in use changes to another status of a block in use. -/
lemma Inv.setStatus (hi : rbb.Used i)
    (hstatus : status ≠ .unused) : Inv listed (rbb.setStatus i status) := by
  have hused : ∀ j, (rbb.setStatus i status).Used j ↔ rbb.Used j := by
    intro j
    by_cases hij : j = i
    · subst hij
      refine iff_of_true ⟨hi.1, ?_⟩ hi
      simpa [Rbb.setStatus] using hstatus
    · exact used_setStatus_of_ne hij
  exact h.of_sameAreas (sameAreas_setStatus rbb i status) rfl (fun j => (hused j).mp)
    fun j hj => (hused j).mpr (h.used j hj)

lemma Inv.remove (i : ℕ) : Inv listed (rbb.remove i) :=
  ⟨h.end_lt, fun j hj => h.used j (mem_of_mem_erase hj), h.nodup.erase i,
    fun j hj => h.pos j (mem_of_mem_erase hj), h.inside, h.rotated.erase i, h.disjoint⟩

lemma Inv.setUnused (hi : i ∉ rbb.blkList) : Inv listed (rbb.setStatus i .unused) := by
  refine h.of_sameAreas (sameAreas_setStatus rbb i .unused) rfl (fun j hj => ?_) fun j hj => ?_
  · by_cases hij : j = i
    · subst hij
      exact absurd (by simp [Rbb.setStatus]) hj.2
    · exact (used_setStatus_of_ne hij).mp hj
  · have hij : j ≠ i := by
      rintro rfl
      exact hi hj
    exact (used_setStatus_of_ne hij).mpr (h.used j hj)

lemma Inv.rtRbbBlkFree (hok : rtRbbBlkFree rbb i = .ok rbb') : Inv listed rbb' := by
  obtain ⟨-, hok⟩ := ite_eq_ok.mp hok
  split at hok
  case isTrue => cases hok
  case isFalse =>
    cases hok
    exact (h.remove i).setUnused h.nodup.not_mem_erase

lemma Inv.rtRbbBlkQueueFree {blkQueue : RbbBlkQueue}
    (hok : rtRbbBlkQueueFree rbb blkQueue = .ok rbb') : Inv listed rbb' := by
  unfold Drivers.rtRbbBlkQueueFree at hok
  generalize range blkQueue.blkNum = is at hok
  -- one block after the other
  induction is generalizing rbb with
  | nil =>
    cases hok
    exact h
  | cons i is ih =>
    rw [foldlM_cons] at hok
    obtain ⟨rbb₁, hfree, hrest⟩ := bind_eq_ok.mp hok
    exact ih (h.rtRbbBlkFree hfree) hrest

end

lemma Inv.take (h : Inv listed s.rbb) (hi : s.rbb.Used i) : Inv listed (s.take i).rbb :=
  (h.remove i).setStatus hi (by decide)

lemma used_take (hj : s.rbb.Used j) (i : ℕ) : (s.take i).rbb.Used j := by
  by_cases hij : j = i
  · subst hij
    exact ⟨hj.1, by simp [QueueLoop.take, Rbb.setStatus]⟩
  · exact (used_setStatus_of_ne hij).mpr hj

lemma Inv.queueGetLoop (h : Inv listed s.rbb) (queueDataLen : ℕ) (last : Option ℕ)
    (nodes : List ℕ) (hnodes : ∀ i ∈ nodes, s.rbb.Used i) :
    Inv listed (queueGetLoop queueDataLen s last nodes).rbb := by
  induction nodes generalizing s last with
  | nil => exact h
  | cons block nodes ih =>
    have hblock := hnodes block mem_cons_self
    have hrest : ∀ i ∈ nodes, s.rbb.Used i := fun i hi => hnodes i (mem_cons_of_mem block hi)
    unfold Drivers.queueGetLoop
    cases last with
    | none =>
      dsimp only
      split
      · exact ih (s := { s with queue := ⟨block, 0⟩ }.take block) (Inv.take h hblock) _
          fun i hi => used_take (hrest i hi) block
      · exact ih h none hrest
    | some last =>
      dsimp only
      split
      · exact h
      · exact ih (h.take hblock) _ fun i hi => used_take (hrest i hi) block

lemma Inv.rtRbbBlkQueueGet (h : Inv listed rbb) (queueDataLen : ℕ) (blkQueue : RbbBlkQueue) :
    Inv listed (rtRbbBlkQueueGet rbb queueDataLen blkQueue).1 :=
  Inv.queueGetLoop h queueDataLen none rbb.blkList h.used

lemma Inv.rtRbbBlkGet (h : Inv listed rbb) : Inv listed (rtRbbBlkGet rbb).1 := by
  unfold Drivers.rtRbbBlkGet
  split
  case h_1 i hfind => exact h.setStatus (h.used i (mem_of_find?_eq_some hfind)) (by decide)
  case h_2 => exact h

lemma Inv.rtRbbBlkPut (h : Inv listed rbb) (hok : rtRbbBlkPut rbb i = .ok rbb') : Inv listed rbb' := by
  obtain ⟨hi, hok⟩ := ite_eq_ok.mp hok
  obtain ⟨hstatus, hok⟩ := ite_eq_ok.mp hok
  cases hok
  exact h.setStatus ⟨hi, by rw [hstatus]; decide⟩ (by decide)

/-! ## Allocation -/

/-- Room for a new block of `n` bytes at `b`, behind the blocks `l₂` and before the blocks `l₁`. -/
structure Room (rbb : Rbb) (b n : ℕ) (l₁ l₂ : List ℕ) : Prop where
  list : rbb.blkList = l₁ ++ l₂
  pairwise : (l₂ ++ l₁).Pairwise rbb.Before
  behind : ∀ i ∈ l₂, (rbb.blkSet i).buf + (rbb.blkSet i).size ≤ b
  before : ∀ j ∈ l₁, b + n ≤ (rbb.blkSet j).buf
  inside : rbb.buf ≤ b ∧ b + n ≤ rbb.buf + rbb.bufSize

lemma end_le_of_getLast? {l : List ℕ} {tail : ℕ} (hpair : l.Pairwise rbb.Before)
    (htail : l.getLast? = some tail) :
    ∀ i ∈ l, (rbb.blkSet i).buf + (rbb.blkSet i).size ≤
      (rbb.blkSet tail).buf + (rbb.blkSet tail).size := by
  obtain ⟨l', rfl⟩ := getLast?_eq_some_iff.mp htail
  intro i hi
  rcases mem_append.mp hi with hi | hi
  · have hbefore : (rbb.blkSet i).buf + (rbb.blkSet i).size ≤ (rbb.blkSet tail).buf :=
      (pairwise_append.mp hpair).2.2 i hi tail mem_cons_self
    omega
  · rw [mem_singleton.mp hi]

lemma start_le_of_head? {l : List ℕ} {head : ℕ} (hpair : l.Pairwise rbb.Before)
    (hhead : l.head? = some head) : ∀ i ∈ l, (rbb.blkSet head).buf ≤ (rbb.blkSet i).buf := by
  obtain ⟨l', rfl⟩ := head?_eq_some_iff.mp hhead
  intro i hi
  rcases mem_cons.mp hi with rfl | hi
  · exact le_rfl
  · have hbefore : (rbb.blkSet head).buf + (rbb.blkSet head).size ≤ (rbb.blkSet i).buf :=
      (pairwise_cons.mp hpair).1 i hi
    omega

section

variable (h : Inv listed rbb)

include h

lemma Inv.findRoom {head tail b : ℕ} (hhead : rbb.blkList.head? = some head)
    (htail : rbb.blkList.getLast? = some tail)
    (hroom : findRoom rbb (rbb.blkSet head) (rbb.blkSet tail) n = some b) :
    ∃ l₁ l₂, Room rbb b n l₁ l₂ := by
  have hend := h.end_lt
  obtain ⟨hhead₀, hhead₁⟩ := h.inside head (h.used head (mem_of_mem_head? hhead))
  obtain ⟨htail₀, htail₁⟩ := h.inside tail (h.used tail (mem_of_getLast? htail))
  have hpos := h.pos tail (mem_of_getLast? htail)
  have hadd : add (rbb.blkSet tail).buf (rbb.blkSet tail).size =
      (rbb.blkSet tail).buf + (rbb.blkSet tail).size := add_of_lt (by omega)
  have hbuf : add rbb.buf rbb.bufSize = rbb.buf + rbb.bufSize := add_of_lt hend
  unfold Drivers.findRoom at hroom
  rcases h.rotated.cases with hpair | ⟨l₁, l₂, hne₁, hne₂, hlist, hpair⟩
  · -- the list is ordered by address
    have hle : (rbb.blkSet head).buf ≤ (rbb.blkSet tail).buf :=
      start_le_of_head? hpair hhead tail (mem_of_getLast? htail)
    have hempty1 : sub (rbb.buf + rbb.bufSize) ((rbb.blkSet tail).buf + (rbb.blkSet tail).size) =
          rbb.buf + rbb.bufSize - ((rbb.blkSet tail).buf + (rbb.blkSet tail).size) :=
      sub_of_le htail₁ hend
    have hempty2 : sub (rbb.blkSet head).buf rbb.buf = (rbb.blkSet head).buf - rbb.buf :=
      sub_of_le hhead₀ (by omega)
    simp only [if_pos hle, hadd, hbuf, hempty1, hempty2] at hroom
    split at hroom
    case isTrue hfits =>
      obtain rfl := some.inj hroom
      refine ⟨[], rbb.blkList, rfl, by rwa [append_nil], end_le_of_getLast? hpair htail,
        fun j hj => absurd hj not_mem_nil, ?_⟩
      omega
    case isFalse =>
      -- in front of the first block
      obtain ⟨hfits, hb⟩ := ite_none_right_eq_some.mp hroom
      obtain rfl := some.inj hb
      refine ⟨rbb.blkList, [], (append_nil _).symm, by rwa [nil_append],
        fun i hi => absurd hi not_mem_nil, fun j hj => ?_, ?_⟩
      · have := start_le_of_head? hpair hhead j hj
        omega
      · omega
  · -- the last block is in front of the first one
    have hhead' : l₁.head? = some head := by
      rwa [hlist, head?_append_of_ne_nil _ hne₁] at hhead
    have htail' : l₂.getLast? = some tail := by
      rwa [hlist, getLast?_append_of_ne_nil _ hne₂] at htail
    obtain ⟨hpair₂, hpair₁, hcross⟩ := pairwise_append.mp hpair
    have hlt : (rbb.blkSet tail).buf + (rbb.blkSet tail).size ≤ (rbb.blkSet head).buf :=
      hcross tail (mem_of_getLast? htail') head (mem_of_mem_head? hhead')
    have hempty1 : sub (rbb.blkSet head).buf ((rbb.blkSet tail).buf + (rbb.blkSet tail).size) =
          (rbb.blkSet head).buf - ((rbb.blkSet tail).buf + (rbb.blkSet tail).size) :=
      sub_of_le hlt (by omega)
    simp only [if_neg (by omega : ¬ (rbb.blkSet head).buf ≤ (rbb.blkSet tail).buf), hadd,
      hempty1] at hroom
    obtain ⟨hfits, hb⟩ := ite_none_right_eq_some.mp hroom
    obtain rfl := some.inj hb
    refine ⟨l₁, l₂, hlist, hpair, end_le_of_getLast? hpair₂ htail', fun j hj => ?_, ?_⟩
    · have := start_le_of_head? hpair₁ hhead' j hj
      omega
    · omega

lemma Inv.place {new b : ℕ} {l₁ l₂ : List ℕ} (hnew : new < rbb.blkMaxNum)
    (hunused : (rbb.blkSet new).status = .unused) (hroom : Room rbb b n l₁ l₂) (hn : 0 < n)
    (hall : listed → ∀ i, rbb.Used i → i ∈ rbb.blkList) : Inv listed (rbb.place new b n) := by
  have hnot : new ∉ rbb.blkList := fun hmem => (h.used new hmem).2 hunused
  have hset : (rbb.place new b n).blkSet new = ⟨.inited, n, b⟩ := update_self _ _ _
  have hne : ∀ i ≠ new, (rbb.place new b n).blkSet i = rbb.blkSet i :=
    fun i hi => update_of_ne hi _ _
  have hother : ∀ i ∈ rbb.blkList, (rbb.place new b n).blkSet i = rbb.blkSet i := by
    intro i hi
    refine hne i ?_
    rintro rfl
    exact hnot hi
  have hmem : ∀ i ∈ rbb.blkList ++ [new], i = new ∨ i ∈ rbb.blkList := by
    intro i hi
    rcases mem_append.mp hi with hi | hi
    · exact .inr hi
    · exact .inl (mem_singleton.mp hi)
  have hlist₁ : ∀ i ∈ l₁, i ∈ rbb.blkList := fun i hi => by rw [hroom.list]; simp [hi]
  have hlist₂ : ∀ i ∈ l₂, i ∈ rbb.blkList := fun i hi => by rw [hroom.list]; simp [hi]
  have hold : ∀ i ∈ rbb.blkList, ∀ j ∈ rbb.blkList, rbb.Before i j →
      (rbb.place new b n).Before i j := by
    intro i hi j hj hij
    rw [Before, hother i hi, hother j hj]
    exact hij
  have hrotated : Rotated (rbb.place new b n).Before (rbb.blkList ++ [new]) := by
    refine ⟨l₁, l₂ ++ [new], by rw [hroom.list, append_assoc], ?_⟩
    obtain ⟨hpair₂, hpair₁, hcross⟩ := pairwise_append.mp hroom.pairwise
    rw [append_assoc]
    refine pairwise_append.mpr ⟨?_, pairwise_cons.mpr ⟨fun j hj => ?_, ?_⟩, fun i hi j hj => ?_⟩
    · exact hpair₂.imp_of_mem fun hi hj => hold _ (hlist₂ _ hi) _ (hlist₂ _ hj)
    · rw [Before, hset, hother j (hlist₁ j hj)]
      exact hroom.before j hj
    · exact hpair₁.imp_of_mem fun hi hj => hold _ (hlist₁ _ hi) _ (hlist₁ _ hj)
    · rcases mem_cons.mp hj with rfl | hj
      · rw [Before, hset, hother i (hlist₂ i hi)]
        exact hroom.behind i hi
      · exact hold i (hlist₂ i hi) j (hlist₁ j hj) (hcross i hi j hj)
  have hused : ∀ i ≠ new, (rbb.place new b n).Used i → rbb.Used i := by
    intro i hi hu
    refine ⟨hu.1, ?_⟩
    rw [← hne i hi]
    exact hu.2
  refine ⟨h.end_lt, fun i hi => ?_, ?_, fun i hi => ?_, fun i hi => ?_, hrotated,
    fun hlisted i j hi hj hij => ?_⟩
  · rcases hmem i hi with rfl | hi
    · exact ⟨hnew, by rw [hset]; exact nofun⟩
    · refine ⟨(h.used i hi).1, ?_⟩
      rw [hother i hi]
      exact (h.used i hi).2
  · exact nodup_append.mpr ⟨h.nodup, nodup_singleton new, fun i hi j hj hij =>
      hnot (by rw [← mem_singleton.mp hj, ← hij]; exact hi)⟩
  · rcases hmem i hi with rfl | hi
    · rw [hset]
      exact hn
    · rw [hother i hi]
      exact h.pos i hi
  · by_cases hin : i = new
    · rw [Inside, hin, hset]
      exact hroom.inside
    · rw [Inside, hne i hin]
      exact h.inside i (hused i hin hi)
  · have hlist : ∀ i, (rbb.place new b n).Used i → i ∈ rbb.blkList ++ [new] := by
      intro i hi
      by_cases hin : i = new
      · rw [hin]
        simp
      · exact mem_append_left _ (hall hlisted i (hused i hin hi))
    rcases hrotated.rel_or_rel (hlist i hi) (hlist j hj) hij with hbefore | hbefore
    · exact hbefore.disjoint
    · exact hbefore.disjoint.symm

lemma Inv.rtRbbBlkAlloc {new : Option ℕ} (hfits : FirstFits rbb (.alloc n))
    (hall : listed → ∀ i, rbb.Used i → i ∈ rbb.blkList)
    (hok : rtRbbBlkAlloc rbb n = .ok (rbb', new)) :
    Inv listed rbb' ∧ ∀ i ∈ new, i ∈ rbb'.blkList := by
  obtain ⟨hn, hfirst⟩ := hfits
  obtain ⟨-, hok⟩ := ite_eq_ok.mp hok
  split at hok
  case h_1 => cases hok; exact ⟨h, nofun⟩
  case h_2 new' hfind =>
    have hnew : new' < rbb.blkMaxNum := mem_range.mp (mem_of_find?_eq_some hfind)
    have hunused : (rbb.blkSet new').status = .unused := by
      simpa using find?_some hfind
    split at hok
    case isFalse => cases hok; exact ⟨h, nofun⟩
    case isTrue =>
      split at hok
      case h_1 head tail hhead htail =>
        split at hok
        case h_1 b hroom =>
          cases hok
          obtain ⟨l₁, l₂, hroom⟩ := h.findRoom hhead htail hroom
          exact ⟨h.place hnew hunused hroom hn hall, by simp [Rbb.place]⟩
        case h_2 => cases hok; exact ⟨h, nofun⟩
      case h_2 hnone =>
        cases hok
        have hnil : rbb.blkList = [] := by
          rcases hlist : rbb.blkList with _ | ⟨head, l⟩
          · rfl
          · rw [hlist] at hnone
            exact (hnone head _ rfl (getLast?_eq_some_getLast (cons_ne_nil head l))).elim
        have hroom : Room rbb rbb.buf n [] [] := by
          refine ⟨hnil, List.Pairwise.nil, by simp, by simp, le_rfl, ?_⟩
          have := hfirst hnil
          omega
        exact ⟨h.place hnew hunused hroom hn hall, by simp [Rbb.place]⟩

lemma Inv.step (ha : FirstFits rbb a)
    (hall : listed → AllocFits rbb a) (hok : step rbb a = some rbb') : Inv listed rbb' := by
  cases a with
  | alloc n =>
    obtain ⟨⟨rbb₁, new⟩, hcall, rfl⟩ := map_eq_ok.mp (toOption_eq_some.mp hok)
    exact (h.rtRbbBlkAlloc ha (fun hlisted => (hall hlisted).2.2) hcall).1
  | put i => exact h.rtRbbBlkPut (toOption_eq_some.mp hok)
  | get =>
    obtain rfl := some.inj hok
    exact h.rtRbbBlkGet
  | free i => exact h.rtRbbBlkFree (toOption_eq_some.mp hok)
  | queueGet queueDataLen blkQueue =>
    obtain rfl := some.inj hok
    exact h.rtRbbBlkQueueGet queueDataLen blkQueue
  | queueFree blkQueue => exact h.rtRbbBlkQueueFree (toOption_eq_some.mp hok)

end

lemma Inv.init (h : Initial rbb) : Inv listed rbb := by
  obtain ⟨buf, bufSize, blockSet, blkMaxNum, hend, rfl⟩ := h
  have hunused : ∀ i, ¬ (rtRbbInit buf bufSize blockSet blkMaxNum).Used i := by
    rintro i ⟨hlt, hused⟩
    exact absurd (by simp only [rtRbbInit] at hlt ⊢; rw [if_pos hlt]) hused
  exact ⟨hend, by simp [rtRbbInit], nodup_nil, by simp [rtRbbInit],
    fun i hi => absurd hi (hunused i), rotated_of_pairwise List.Pairwise.nil,
    fun _ i _ hi => absurd hi (hunused i)⟩

/-- The areas of the blocks in use are disjoint in every state of every run in which the allocations
fit. -/
theorem areasDisjoint_of_allocFits (hrbb : Reach Initial step AllocFits rbb) : rbb.AreasDisjoint :=
  (hrbb.invariant (I := Inv True) (fun _ => Inv.init)
    fun _ _ _ h ha hok => h.step ha.firstFits (fun _ => ha) hok).disjoint trivial

/-- A buffer of ten bytes and three blocks. -/
def ten : Rbb := rtRbbInit 0 10 (fun _ => ⟨.unused, 0, 0⟩) 3

lemma initial_ten : Initial ten := ⟨0, 10, _, 3, by decide, rfl⟩

def allListed (rbb : Rbb) : Bool :=
  (range rbb.blkMaxNum).all fun i => (rbb.blkSet i).status = .unused ∨ i ∈ rbb.blkList

lemma mem_of_allListed (h : rbb.allListed = true) (hi : rbb.Used i) : i ∈ rbb.blkList := by
  have hall := all_eq_true.mp h i (mem_range.mpr hi.1)
  exact (of_decide_eq_true hall).resolve_left hi.2

def allocFits (rbb : Rbb) : Act → Bool
  | .alloc n => 0 < n && (rbb.blkList ≠ [] || n ≤ rbb.bufSize) && rbb.allListed
  | _ => true

lemma allocFits_of_test (h : rbb.allocFits a = true) : AllocFits rbb a := by
  cases a with
  | alloc n =>
    simp only [allocFits, Bool.and_eq_true, Bool.or_eq_true, decide_eq_true_eq] at h
    obtain ⟨⟨hn, hfirst⟩, hall⟩ := h
    exact ⟨hn, fun hnil => hfirst.resolve_left (not_not.mpr hnil), fun i => mem_of_allListed hall⟩
  | put i => trivial
  | get => trivial
  | free i => trivial
  | queueGet queueDataLen blkQueue => trivial
  | queueFree blkQueue => trivial

/-- Two blocks are allocated, the first one is put, handed out in a queue and freed, and a third block
is placed at the start of the buffer. -/
theorem areasDisjoint_three : ∃ rbb : Rbb,
    rbb.blkList = [1, 0] ∧ (rbb.blkSet 0).buf = 0 ∧ (rbb.blkSet 1).buf = 6 ∧ rbb.AreasDisjoint := by
  obtain ⟨rbb, hreach, hlist, hfirst, hsecond⟩ : ∃ rbb, Reach Initial step AllocFits rbb ∧
      rbb.blkList = [1, 0] ∧ (rbb.blkSet 0).buf = 0 ∧ (rbb.blkSet 1).buf = 6 :=
    exists_of_run (fun _ _ => allocFits_of_test) initial_ten
      [.alloc 6, .alloc 4, .put 0, .queueGet 10 ⟨0, 0⟩, .queueFree ⟨0, 1⟩, .alloc 5]
      (by decide +kernel)
  exact ⟨rbb, hlist, hfirst, hsecond, areasDisjoint_of_allocFits hreach⟩

/-- A block is handed out in a queue, and the next block gets the same memory. -/
theorem not_areasDisjoint_queue : ∃ rbb : Rbb,
    Reach Initial step (fun _ _ => True) rbb ∧ (rbb.blkSet 0).status = .get ∧
      (rbb.blkSet 1).status = .inited ∧ (rbb.blkSet 0).buf = (rbb.blkSet 1).buf ∧
      ¬ rbb.AreasDisjoint := by
  obtain ⟨rbb, hreach, hfirst, hsecond, hmax⟩ : ∃ rbb,
      Reach Initial step (fun _ _ => True) rbb ∧ rbb.blkSet 0 = ⟨.get, 4, 0⟩ ∧
        rbb.blkSet 1 = ⟨.inited, 4, 0⟩ ∧ rbb.blkMaxNum = 3 :=
    exists_of_free_run initial_ten [.alloc 4, .put 0, .queueGet 10 ⟨0, 0⟩, .alloc 4]
      (by decide +kernel)
  refine ⟨rbb, hreach, by rw [hfirst], by rw [hsecond], by rw [hfirst, hsecond], fun hdisjoint => ?_⟩
  have hused₀ : rbb.Used 0 := ⟨by rw [hmax]; decide, by rw [hfirst]; decide⟩
  have hused₁ : rbb.Used 1 := ⟨by rw [hmax]; decide, by rw [hsecond]; decide⟩
  have hareas := hdisjoint 0 1 hused₀ hused₁ (by decide)
  rw [area, area, hfirst, hsecond] at hareas
  exact Set.disjoint_left.mp hareas (show 0 ∈ Set.Ico 0 (0 + 4) by simp)
    (show 0 ∈ Set.Ico 0 (0 + 4) by simp)

/-! ## Bounds of the areas -/

/-- In every run in which a block that is allocated is not empty, and not larger than the buffer if it
is the first one, the blocks in use lie in the buffer. -/
theorem inside_of_firstFits (hrbb : Reach Initial step FirstFits rbb) :
    (∀ i, rbb.Used i → rbb.Inside i) ∧ ∀ blkSize rbb' new, FirstFits rbb (.alloc blkSize) →
      rtRbbBlkAlloc rbb blkSize = .ok (rbb', some new) → rbb'.Inside new := by
  have hinv : Inv False rbb := hrbb.invariant (fun _ => Inv.init)
    fun _ _ _ h ha hok => h.step ha False.elim hok
  refine ⟨hinv.inside, fun blkSize rbb' new hfits hok => ?_⟩
  obtain ⟨hinv', hnew⟩ := hinv.rtRbbBlkAlloc hfits False.elim hok
  exact hinv'.inside new (hinv'.used new (hnew new rfl))

/-- Two blocks of a buffer of ten bytes, and a third one in front of the second one. -/
theorem inside_three : ∃ rbb : Rbb, rbb.blkList = [1, 0] ∧ rbb.Inside 0 ∧ rbb.Inside 1 := by
  obtain ⟨rbb, hreach, hlist, hused⟩ : ∃ rbb, Reach Initial step FirstFits rbb ∧
      rbb.blkList = [1, 0] ∧ rbb.Used 0 ∧ rbb.Used 1 :=
    exists_of_run (fun _ _ h => (allocFits_of_test h).firstFits) initial_ten
      [.alloc 6, .alloc 4, .free 0, .alloc 5] (by decide +kernel)
  have hinside := (inside_of_firstFits hreach).1
  exact ⟨rbb, hlist, hinside 0 hused.1, hinside 1 hused.2⟩

/-- The first block of the list is larger than the buffer. After an empty block has been allocated
between two blocks, the free space behind the last block is negative, and the next block lies behind
the buffer. -/
theorem not_inside_alloc :
    (∃ rbb rbb' : Rbb, Reach Initial step (fun _ _ => True) rbb ∧ rbb.bufSize = 10 ∧
      step rbb (.alloc 11) = some rbb' ∧ rbb'.Used 0 ∧ ¬ rbb'.Inside 0) ∧
    ∃ rbb : Rbb, Reach Initial step (fun _ _ => True) rbb ∧ rbb.bufSize = 10 ∧
      rbb.blkSet 1 = ⟨.inited, 5, 10⟩ ∧ ¬ rbb.Inside 1 := by
  constructor
  · exact ⟨ten, ten.place 0 0 11, .init initial_ten, rfl, rfl, ⟨by decide, by decide⟩,
      fun h => absurd h.2 (by decide)⟩
  · obtain ⟨rbb, hreach, hbuf, hsize, hblk⟩ : ∃ rbb,
        Reach Initial step (fun _ _ => True) rbb ∧ rbb.buf = 0 ∧ rbb.bufSize = 10 ∧
          rbb.blkSet 1 = ⟨.inited, 5, 10⟩ :=
      exists_of_free_run (s := rtRbbInit 0 10 (fun _ => ⟨.unused, 0, 0⟩) 5)
        ⟨0, 10, _, 5, by decide, rfl⟩
        [.alloc 4, .alloc 5, .alloc 1, .free 0, .alloc 4, .alloc 0, .alloc 6, .free 1, .alloc 5]
        (by decide +kernel)
    refine ⟨rbb, hreach, hsize, hblk, fun h => ?_⟩
    rw [Inside, hbuf, hsize, hblk] at h
    exact absurd h.2 (by decide)

end Rbb

end Drivers

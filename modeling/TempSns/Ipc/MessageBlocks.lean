import TempSns.Ipc.MessageQueue
import TempSns.Lib.Chain
import TempSns.Lib.Custody

/-!
# The blocks of a message queue

At all times each block is in the queue, in the free list, or in the hands of one call in progress
(`Custody`). `Chains` says which blocks the two lists hold; it has one rule for each critical section.
-/

namespace Ipc.MessageQueue

open SinglyLinked MessageQueue List

variable {mq : MessageQueue} {queued free : List ℕ} {b : ℕ}

/-- The queue holds the blocks `queued` and the free list the blocks `free`. -/
structure Chains (mq : MessageQueue) (queued free : List ℕ) : Prop where
  queue : Chain mq.next mq.msgQueueHead queued
  spare : Chain mq.next mq.msgQueueFree free
  tail : mq.msgQueueTail = queued.getLast?
  nodup : (queued ++ free).Nodup

namespace Chains

variable (h : Chains mq queued free)

include h

lemma takeFree (hb : mq.msgQueueFree = some b) :
    ∃ free', free = b :: free' ∧ Chains { mq with msgQueueFree := mq.next b } queued free' := by
  have hchain := h.spare
  rw [hb] at hchain
  obtain ⟨free', rfl, hrest⟩ := hchain.of_some
  have hnodup := (perm_middle.nodup_iff.mp h.nodup)
  exact ⟨free', rfl, h.queue, hrest, h.tail, (nodup_cons.mp hnodup).2⟩

/-- The pointer of a block in no list. -/
lemma clearNext (hb : b ∉ queued ++ free) : Chains (mq.clearNext b) queued free where
  queue := h.queue.update (fun hmem => hb (mem_append_left free hmem)) none
  spare := h.spare.update (fun hmem => hb (mem_append_right queued hmem)) none
  tail := h.tail
  nodup := h.nodup

/-- A normal message is linked behind the last block. -/
lemma linkTail (hb : b ∉ queued ++ free) (hnext : mq.next b = none) :
    Chains (mq.linkTail b) (queued ++ [b]) free := by
  have hbq : b ∉ queued := fun hmem => hb (mem_append_left free hmem)
  have hnodup : (queued ++ [b] ++ free).Nodup := by
    have hperm : (b :: (queued ++ free)).Perm (queued ++ [b] ++ free) := by
      rw [append_assoc, singleton_append]
      exact perm_middle.symm
    exact hperm.nodup_iff.mp (nodup_cons.mpr ⟨hb, h.nodup⟩)
  have hlast : some b = (queued ++ [b]).getLast? := by simp
  have hhead := h.queue.head
  have htail := h.tail
  rcases eq_nil_or_concat' queued with rfl | ⟨q, a, rfl⟩
  · -- the block is the only one
    simp only [head?_nil, getLast?_nil] at hhead htail
    refine ⟨?_, ?_, hlast, hnodup⟩
    · simp only [linkTail, hhead, htail, if_true]
      exact ⟨rfl, hnext⟩
    · simp only [linkTail, htail]
      exact h.spare
  · simp only [getLast?_append, getLast?_singleton, Option.some_or] at htail
    have hsome : mq.msgQueueHead ≠ none := by
      rw [hhead]
      simp
    have haf : a ∉ free := by
      intro hmem
      exact (disjoint_of_nodup_append h.nodup) (by simp) hmem
    refine ⟨?_, ?_, hlast, hnodup⟩
    · simp only [linkTail, htail, if_neg hsome]
      exact h.queue.concat h.nodup.of_append_left hbq hnext
    · simp only [linkTail, htail]
      exact h.spare.update haf (some b)

/-- An urgent message is linked before the first block. -/
lemma linkHead (hb : b ∉ queued ++ free) : Chains (mq.linkHead b) (b :: queued) free where
  queue := h.queue.push fun hmem => hb (mem_append_left free hmem)
  spare := h.spare.update (fun hmem => hb (mem_append_right queued hmem)) _
  tail := by
    simp only [MessageQueue.linkHead, h.tail]
    cases queued with
    | nil => rfl
    | cons a q => simp [getLast?_cons_cons]
  nodup := nodup_cons.mpr ⟨hb, h.nodup⟩

lemma unlinkHead (hb : mq.msgQueueHead = some b) :
    ∃ q, queued = b :: q ∧ Chains (mq.unlinkHead b) q free := by
  have hchain := h.queue
  rw [hb] at hchain
  obtain ⟨q, rfl, hrest⟩ := hchain.of_some
  obtain ⟨hnot, hnodup⟩ := nodup_cons.mp h.nodup
  refine ⟨q, rfl, hrest, h.spare, ?_, hnodup⟩
  simp only [unlinkHead, h.tail]
  rcases eq_nil_or_concat' q with rfl | ⟨q, a, rfl⟩
  · simp
  · -- the last block is another one
    have hab : a ≠ b := by
      rintro rfl
      exact hnot (by simp)
    simp [getLast?_cons, hab]

lemma putFree (hb : b ∉ queued ++ free) : Chains (mq.putFree b) queued (b :: free) where
  queue := h.queue.update (fun hmem => hb (mem_append_left free hmem)) _
  spare := h.spare.push fun hmem => hb (mem_append_right queued hmem)
  tail := h.tail
  nodup := perm_middle.nodup_iff.mpr (nodup_cons.mpr ⟨hb, h.nodup⟩)

/-- The loop of `rt_mq_control` puts all blocks of the queue to the free list. -/
lemma releaseAll {fuel : ℕ} (hfuel : queued.length < fuel) :
    ∃ mq', mq.releaseAll fuel = .ok mq' ∧ Chains mq' [] (queued.reverse ++ free) ∧
      mq'.maxMsgs = mq.maxMsgs ∧ mq'.body = mq.body ∧ ∀ x ∉ queued, mq'.next x = mq.next x := by
  induction queued generalizing mq free fuel with
  | nil =>
    obtain ⟨fuel, rfl⟩ := Nat.exists_eq_succ_of_ne_zero (Nat.ne_zero_of_lt hfuel)
    have hnone : mq.msgQueueHead = none := h.queue
    refine ⟨mq, ?_, h, rfl, rfl, fun _ _ => rfl⟩
    simp only [releaseAll, hnone]
  | cons b q ih =>
    obtain ⟨fuel, rfl⟩ := Nat.exists_eq_succ_of_ne_zero (Nat.ne_zero_of_lt hfuel)
    have hhead : mq.msgQueueHead = some b := h.queue.1
    obtain ⟨q', hq, hunlinked⟩ := h.unlinkHead hhead
    obtain rfl := (cons.inj hq).2
    have hround := hunlinked.putFree (nodup_cons.mp h.nodup).1
    obtain ⟨mq', hok, hchains, hmax, hbody, hnext⟩ := ih hround (Nat.lt_of_succ_lt_succ hfuel)
    refine ⟨mq', ?_, ?_, hmax, hbody, fun x hx => ?_⟩
    · simp only [releaseAll, hhead]
      exact hok
    · rwa [reverse_cons, append_assoc, singleton_append]
    · obtain ⟨hxb, hxq⟩ := not_or.mp (mt mem_cons.mpr hx)
      rw [hnext x hxq]
      exact Function.update_of_ne hxb _ _

end Chains

lemma chain_initFree (mq : MessageQueue) (n : ℕ) :
    Chain (mq.initFree n).next (mq.initFree n).msgQueueFree (range n).reverse := by
  induction n with
  | zero => rfl
  | succ n ih =>
    rw [range_succ, reverse_append, reverse_singleton, singleton_append]
    exact ih.push (by simp)

lemma initFree_fields (mq : MessageQueue) (n : ℕ) :
    (mq.initFree n).msgQueueHead = mq.msgQueueHead ∧ (mq.initFree n).msgQueueTail = mq.msgQueueTail ∧
      (mq.initFree n).entry = mq.entry ∧ (mq.initFree n).maxMsgs = mq.maxMsgs := by
  induction n with
  | zero => exact ⟨rfl, rfl, rfl, rfl⟩
  | succ n ih => exact ih

lemma chains_setup (msgSize maxMsgs : UInt16) (next : ℕ → Option ℕ) (body : ℕ → ℕ → UInt8) :
    Chains (setup msgSize maxMsgs next body) [] (range maxMsgs.toNat).reverse := by
  obtain ⟨hhead, htail, -, -⟩ := initFree_fields ⟨msgSize, maxMsgs, 0, none, none, none, next, body⟩
    maxMsgs.toNat
  refine ⟨hhead, chain_initFree _ _, htail, ?_⟩
  rw [nil_append, nodup_reverse]
  exact nodup_range

/-! ## History -/

/-- The numbers of the messages in the queue and of the delivered ones are different. -/
structure History.Fresh (h : History) : Prop where
  nodup : ((h.queue ++ h.delivered).map Msg.id).Nodup
  lt : ∀ msg ∈ h.queue ++ h.delivered, msg.id < h.links

namespace History.Fresh

variable {h : History} {msg : Msg} {q : List Msg}

variable (hf : h.Fresh)

include hf

lemma links_not_mem : h.links ∉ (h.queue ++ h.delivered).map Msg.id := by
  intro hmem
  obtain ⟨msg, hmsg, hid⟩ := mem_map.mp hmem
  exact absurd hid (Nat.ne_of_lt (hf.lt msg hmsg))

lemma link (urgent : Bool) (data : List UInt8) : (h.link urgent data).Fresh := by
  -- in both cases the new message comes to the others
  have hperm : ((h.link urgent data).queue ++ (h.link urgent data).delivered).Perm
      (⟨h.links, data⟩ :: (h.queue ++ h.delivered)) := by
    cases urgent with
    | true => exact List.Perm.refl _
    | false =>
      simp only [History.link, Bool.false_eq_true, if_false, append_assoc, singleton_append]
      exact perm_middle
  constructor
  · rw [(hperm.map Msg.id).nodup_iff, map_cons]
    exact nodup_cons.mpr ⟨hf.links_not_mem, hf.nodup⟩
  · intro msg hmsg
    rcases mem_cons.mp (hperm.mem_iff.mp hmsg) with rfl | hmsg
    · exact Nat.lt_succ_self h.links
    · exact (hf.lt msg hmsg).trans (Nat.lt_succ_self h.links)

lemma deliver (hq : h.queue = msg :: q) : (h.deliver msg).Fresh := by
  have hperm : ((h.deliver msg).queue ++ (h.deliver msg).delivered).Perm
      (h.queue ++ h.delivered) := by
    simp only [History.deliver, hq, tail_cons]
    rw [← append_assoc]
    exact perm_append_comm
  exact ⟨(hperm.map Msg.id).nodup_iff.mpr hf.nodup, fun x hx => hf.lt x (hperm.mem_iff.mp hx)⟩

lemma clear : h.clear.Fresh := by
  have hsub : (h.clear.queue ++ h.clear.delivered).Sublist (h.queue ++ h.delivered) :=
    sublist_append_right h.queue h.delivered
  exact ⟨hf.nodup.sublist (hsub.map Msg.id), fun x hx => hf.lt x (hsub.subset hx)⟩

end History.Fresh

end Ipc.MessageQueue

import TempSns.Ipc.MessageBlocks

/-!
# Runs of a message queue

The invariant of the machine: where the blocks are (`Inv`), and that they hold the messages that the
history says (`Intact`). Each part of a call moves one block; `Custody.take` and `Custody.put` are the
moves to and from the hands of a call.
-/

namespace Ipc.MessageQueue

open SinglyLinked Function MessageQueue List Option Except Transition Machine

variable {T : Type} [DecidableEq T] {m m' : Machine T} {queued free : List ℕ} {b : ℕ} {t : T}
  {buffer : List UInt8} {urgent : Bool} {c : Call} {mq : MessageQueue} {msg : ℕ} {data : List UInt8}
  {w : Waits T Unit} {t' : T}

def Machine.holds (m : Machine T) (t : T) : Option ℕ := (m.call t).block

omit [DecidableEq T] in
lemma holds_of_call (hcall : m.call t = c) : m.holds t = c.block := by
  rw [holds, hcall]

lemma holds_setCall (m : Machine T) (t : T) (c : Call) :
    (m.setCall t c).holds = update m.holds t c.block := by
  funext t'
  by_cases htt : t' = t
  · subst htt
    simp [holds, setCall]
  · simp [holds, setCall, htt]

lemma holds_setCall_same (hc : c.block = m.holds t) : (m.setCall t c).holds = m.holds := by
  rw [holds_setCall, hc, update_eq_self]

/-- The blocks `queued` are in the queue, the blocks `free` in the free list, and all others in the
hands of calls. -/
structure Inv (m : Machine T) (queued free : List ℕ) : Prop where
  chains : Chains m.mq queued free
  custody : Custody (· < m.mq.maxMsgs.toNat) m.holds (queued ++ free)
  entry : m.mq.entry.toNat = queued.length
  /-- A block to be linked at the tail has no successor. -/
  clean : ∀ t msg buffer, m.call t = .filled msg false buffer → m.mq.next msg = none
  contents : queued.map m.content = m.hist.queue
  fresh : m.hist.Fresh

namespace Inv

omit [DecidableEq T] in
/-- A step that changes neither the queue nor the blocks in the hands of calls. -/
lemma of_same (h : Inv m queued free) (hmq : m'.mq = m.mq) (hholds : m'.holds = m.holds)
    (hfilled : ∀ t msg buffer, m'.call t = .filled msg false buffer →
      m.call t = .filled msg false buffer) (hcontent : m'.content = m.content)
    (hhist : m'.hist = m.hist) : Inv m' queued free where
  chains := hmq ▸ h.chains
  custody := by
    rw [hmq, hholds]
    exact h.custody
  entry := hmq ▸ h.entry
  clean := fun t msg buffer hcall => hmq ▸ h.clean t msg buffer (hfilled t msg buffer hcall)
  contents := by rw [hcontent, hhist, h.contents]
  fresh := hhist ▸ h.fresh

/-- A call changes to a state that is not about to link a block. -/
lemma filled_setCall (hc : ∀ msg buffer, c ≠ .filled msg false buffer)
    (hcall : (m.setCall t c).call t' = .filled msg false buffer) :
    t' ≠ t ∧ m.call t' = .filled msg false buffer := by
  by_cases htt : t' = t
  · subst htt
    simp only [setCall, update_self] at hcall
    exact absurd hcall (hc msg buffer)
  · simp only [setCall, update_of_ne htt] at hcall
    exact ⟨htt, hcall⟩

section

variable (h : Inv m queued free)

include h

section

omit [DecidableEq T]

lemma holds_ne {b' : ℕ} (ht : m.holds t = some b)
    (ht' : m.holds t' = some b') (htt : t' ≠ t) : b' ≠ b := by
  rintro rfl
  exact htt (h.custody.single t' t b' ht' ht)

/-- Different blocks in the queue and in the hands of calls are at most all blocks. -/
lemma length_le {l : List ℕ} (hnodup : l.Nodup)
    (hl : ∀ b ∈ l, b ∈ queued ∨ ∃ t, m.holds t = some b) : l.length ≤ m.mq.maxMsgs.toNat := by
  have hsub : l ⊆ range m.mq.maxMsgs.toNat := fun b hb => mem_range.mpr
    ((h.custody.cover b).mpr ((hl b hb).imp_left (mem_append_left free)))
  have hle := (subperm_of_subset hnodup hsub).length_le
  rwa [length_range] at hle

lemma room (ht : m.holds t = some b) : queued.length < m.mq.maxMsgs.toNat := by
  -- the block in the hands of the call is one more
  have hnot : b ∉ queued := fun hmem => h.custody.held t b ht (mem_append_left free hmem)
  exact h.length_le (nodup_cons.mpr ⟨hnot, h.custody.nodup.of_append_left⟩)
    (forall_mem_cons.mpr ⟨.inr ⟨t, ht⟩, fun _ hb => .inl hb⟩)

lemma toNat_entry_add (ht : m.holds t = some b) : (m.mq.entry + 1).toNat = queued.length + 1 := by
  have hroom := h.room ht
  have hmax := m.mq.maxMsgs.toNat_lt
  rw [UInt16.toNat_add, h.entry]
  exact Nat.mod_eq_of_lt (by simp; omega)

end

lemma sendStart (hidle : m.call t = .idle) (urgent : Bool) (buffer : List UInt8) :
    ∃ free', Inv (sendStart m t urgent buffer) queued free' := by
  unfold MessageQueue.sendStart
  split
  case isTrue => exact ⟨free, h⟩
  case isFalse =>
    unfold MessageQueue.takeFree
    cases hfree : m.mq.msgQueueFree with
    | none => exact ⟨free, h⟩
    | some msg =>
      obtain ⟨free', rfl, hchains⟩ := h.chains.takeFree hfree
      have hnone : m.holds t = none := holds_of_call hidle
      refine ⟨free', hchains, ?_, h.entry, fun t' x buf hcall => ?_, h.contents, h.fresh⟩
      · rw [holds_setCall]
        exact (h.custody.perm perm_middle).take hnone
      · exact h.clean t' x buf (filled_setCall (by simp) hcall).2

lemma fill (hcall : m.call t = .filling b urgent buffer) :
    Inv ({ m with mq := (if urgent then m.mq else m.mq.clearNext b).copyIn b buffer }.setCall t
      (.filled b urgent buffer)) queued free := by
  have hheld : m.holds t = some b := holds_of_call hcall
  have hnot := h.custody.held t b hheld
  have hchains : Chains (if urgent then m.mq else m.mq.clearNext b) queued free := by
    cases urgent with
    | true => exact h.chains
    | false => exact h.chains.clearNext hnot
  refine ⟨⟨hchains.queue, hchains.spare, hchains.tail, hchains.nodup⟩, ?_, ?_,
    fun t' x buf hcall' => ?_, h.contents, h.fresh⟩
  · rw [holds_setCall_same (by rw [Call.block]; exact hheld.symm)]
    cases urgent <;> exact h.custody
  · cases urgent <;> exact h.entry
  · by_cases htt : t' = t
    · -- this call has just cleared the pointer
      subst htt
      simp only [setCall, update_self, Call.filled.injEq] at hcall'
      obtain ⟨rfl, rfl, -⟩ := hcall'
      simp [copyIn, clearNext, setCall]
    · simp only [setCall, update_of_ne htt] at hcall'
      have hclean := h.clean t' x buf hcall'
      have hne : x ≠ b := h.holds_ne hheld (holds_of_call hcall') htt
      cases urgent with
      | true => exact hclean
      | false =>
        simp only [copyIn, clearNext, setCall,
          Bool.false_eq_true, if_false, update_of_ne hne]
        exact hclean

/-- A sender links its block: the queue gets the new message where the history says. -/
lemma link (hcall : m.call t = .filled b urgent buffer) : Inv ({ m with
      waits := w
      mq := if urgent then m.mq.linkHead b else m.mq.linkTail b
      content := update m.content b ⟨m.hist.links, buffer⟩
      hist := m.hist.link urgent buffer }.setCall t .idle)
      (if urgent then b :: queued else queued ++ [b]) free := by
  have hheld : m.holds t = some b := holds_of_call hcall
  have hnot := h.custody.held t b hheld
  have hbq : b ∉ queued := fun hmem => hnot (mem_append_left free hmem)
  have hput := h.custody.put hheld
  -- the blocks of the other messages are other blocks
  have hold : queued.map (update m.content b ⟨m.hist.links, buffer⟩) = m.hist.queue := by
    rw [← h.contents]
    refine map_congr_left fun x hx => update_of_ne ?_ _ _
    rintro rfl
    exact hbq hx
  have hclean : ∀ t' x buf, t' ≠ t → m.call t' = .filled x false buf →
      m.mq.next x = none ∧ x ≠ b ∧ x ∉ queued := by
    intro t' x buf htt hcall'
    have hheld' : m.holds t' = some x := holds_of_call hcall'
    exact ⟨h.clean t' x buf hcall', h.holds_ne hheld hheld' htt, fun hmem =>
      h.custody.held t' x hheld' (mem_append_left free hmem)⟩
  cases urgent with
  | true =>
    refine ⟨h.chains.linkHead hnot, ?_, h.toNat_entry_add hheld, fun t' x buf hcall' => ?_, ?_,
      h.fresh.link true buffer⟩
    · rw [holds_setCall]
      exact hput
    · obtain ⟨htt, hcall'⟩ := filled_setCall (by simp) hcall'
      obtain ⟨hnext, hne, -⟩ := hclean t' x buf htt hcall'
      simp only [linkHead, setCall, if_true, update_of_ne hne]
      exact hnext
    · simp only [setCall, if_true, map_cons, update_self, hold, History.link]
  | false =>
    have hlast := h.clean t b buffer hcall
    refine ⟨h.chains.linkTail hnot hlast, ?_, ?_, fun t' x buf hcall' => ?_, ?_,
      h.fresh.link false buffer⟩
    · rw [holds_setCall]
      refine hput.perm ?_
      simp only [Bool.false_eq_true, if_false, append_assoc, singleton_append]
      exact perm_middle.symm
    · simp only [Bool.false_eq_true, if_false, length_append, length_singleton]
      exact h.toNat_entry_add hheld
    · obtain ⟨htt, hcall'⟩ := filled_setCall (by simp) hcall'
      obtain ⟨hnext, -, hxq⟩ := hclean t' x buf htt hcall'
      simp only [linkTail, setCall, Bool.false_eq_true, if_false]
      -- only the pointer of the last block of the queue was written
      have htail := h.chains.tail
      cases htl : m.mq.msgQueueTail with
      | none => exact hnext
      | some a =>
        have hxa : x ≠ a := by
          rintro rfl
          rw [htl] at htail
          exact hxq (mem_of_getLast? htail.symm)
        simp only [update_of_ne hxa]
        exact hnext
    · simp only [setCall, Bool.false_eq_true, if_false, map_append, hold,
        map_cons, map_nil, update_self, History.link]

omit [DecidableEq T] in
lemma head (hsome : m.mq.entry ≠ 0) : ∃ msg, m.mq.msgQueueHead = some msg := by
  cases hhead : m.mq.msgQueueHead with
  | some msg => exact ⟨msg, rfl⟩
  | none =>
    have hnil := h.chains.queue.head
    rw [hhead] at hnil
    have hzero := h.entry
    rw [head?_eq_none_iff.mp hnil.symm] at hzero
    exact absurd (UInt16.toNat_inj.mp hzero) hsome

/-- A receiver takes the first block of the queue, which has the first message of the history. -/
lemma takeHead (hnone : m.holds t = none) (hsome : m.mq.entry ≠ 0) :
    ∃ mq msg q, m.mq.takeHead = .ok (mq, msg) ∧ queued = msg :: q ∧
      m.hist.queue = m.content msg :: q.map m.content ∧ ∀ size,
      Inv ({ m with mq := mq, hist := m.hist.deliver (m.content msg) }.setCall t
        (.copying msg size)) q free := by
  obtain ⟨msg, hhead⟩ := h.head hsome
  obtain ⟨q, rfl, hchains⟩ := h.chains.unlinkHead hhead
  have hqueue : m.hist.queue = m.content msg :: q.map m.content := by
    rw [← h.contents, map_cons]
  have hone : (1 : UInt16) ≤ m.mq.entry := by
    rw [UInt16.le_iff_toNat_le, h.entry]
    simp
  refine ⟨_, msg, q, by rw [takeHead, hhead], rfl, hqueue, fun size => ?_⟩
  refine ⟨⟨hchains.queue, hchains.spare, hchains.tail, hchains.nodup⟩, ?_, ?_,
    fun t' x buf hcall => ?_, ?_, h.fresh.deliver hqueue⟩
  · rw [holds_setCall]
    exact h.custody.take hnone
  · simp only [setCall]
    rw [UInt16.toNat_sub_of_le _ _ hone, h.entry]
    simp
  · exact h.clean t' x buf (filled_setCall (by simp) hcall).2
  · simp only [setCall, History.deliver, hqueue, tail_cons]

lemma release (hcall : m.call t = .copied b buffer) :
    Inv ({ m with mq := m.mq.putFree b }.setCall t .idle) queued (b :: free) := by
  have hheld : m.holds t = some b := holds_of_call hcall
  refine ⟨h.chains.putFree (h.custody.held t b hheld), ?_, h.entry, fun t' x buf hcall' => ?_,
    h.contents, h.fresh⟩
  · rw [holds_setCall]
    exact (h.custody.put hheld).perm perm_middle.symm
  · obtain ⟨htt, hcall'⟩ := filled_setCall (by simp) hcall'
    have hne : x ≠ b := h.holds_ne hheld (holds_of_call hcall') htt
    simp only [putFree, setCall, update_of_ne hne]
    exact h.clean t' x buf hcall'

omit [DecidableEq T] in
lemma reset (w : Waits T Unit) :
    ∃ mq, m.mq.releaseAll (m.mq.maxMsgs.toNat + 1) = .ok mq ∧ mq.body = m.mq.body ∧
      Inv { m with waits := w, mq := { mq with entry := 0 }, hist := m.hist.clear } []
        (queued.reverse ++ free) := by
  obtain ⟨mq, hok, hchains, hmax, hbody, hnext⟩ :=
    h.chains.releaseAll (Nat.lt_succ_of_le
      (h.length_le h.custody.nodup.of_append_left fun _ hb => .inl hb))
  refine ⟨mq, hok, hbody, ⟨hchains.queue, hchains.spare, hchains.tail, hchains.nodup⟩, ?_, rfl,
    fun t msg buffer hcall => ?_, rfl, h.fresh.clear⟩
  · simp only [hmax]
    exact h.custody.perm ((reverse_perm queued).symm.append_right free)
  · -- a block in the hands of a call was not in the queue
    have hheld : m.holds t = some msg := holds_of_call hcall
    have hnot : msg ∉ queued := fun hmem => h.custody.held t msg hheld (mem_append_left free hmem)
    simp only [hnext msg hnot]
    exact h.clean t msg buffer hcall

end

end Inv

/-! ## What the blocks hold -/

/-- The block begins with the bytes `data`. -/
def Stores (mq : MessageQueue) (msg : ℕ) (data : List UInt8) : Prop :=
  ∀ i (hi : i < data.length), mq.body msg i = data[i]

/-- The buffer has the bytes `data`, as far as both go. -/
def Received (data buffer : List UInt8) : Prop :=
  ∀ i (hi : i < data.length) (hi' : i < buffer.length), buffer[i] = data[i]

def CallOk (m : Machine T) : Call → Prop
  | .filled msg _ buffer => Stores m.mq msg buffer
  | .copying msg _ => m.content msg ∈ m.hist.delivered ∧ Stores m.mq msg (m.content msg).data
  | .copied msg buffer => m.content msg ∈ m.hist.delivered ∧ Received (m.content msg).data buffer
  | _ => True

/-- The blocks in the queue and in the hands of calls have the bytes of their messages. -/
structure Intact (m : Machine T) (queued : List ℕ) : Prop where
  queue : ∀ b ∈ queued, Stores m.mq b (m.content b).data
  calls : ∀ t, CallOk m (m.call t)

lemma stores_copyIn (mq : MessageQueue) (msg : ℕ) (buffer : List UInt8) :
    Stores (mq.copyIn msg buffer) msg buffer := by
  intro i hi
  simp [copyIn, getElem?_eq_getElem hi]

lemma received_copyOut (size : ℕ)
    (h : Stores mq msg data) : Received data (mq.copyOut msg size) := by
  intro i hi hi'
  simp only [copyOut, getElem_map, getElem_range]
  exact h i hi

namespace Intact

omit [DecidableEq T] in
lemma stores_congr (h : Stores m.mq b data)
    (hbody : mq.body b = m.mq.body b) : Stores mq b data := by
  intro i hi
  rw [hbody]
  exact h i hi

/-- Only the block and the call of the thread `t` change. -/
lemma calls_of_others (h : Intact m queued) (inv : Inv m queued free)
    (hbody : ∀ x, m.holds t ≠ some x → m'.mq.body x = m.mq.body x)
    (hcontent : ∀ x, m.holds t ≠ some x → m'.content x = m.content x)
    (hdelivered : m.hist.delivered ⊆ m'.hist.delivered)
    (hcall : ∀ t' ≠ t, m'.call t' = m.call t') (hself : CallOk m' (m'.call t)) :
    ∀ t', CallOk m' (m'.call t') := by
  intro t'
  by_cases htt : t' = t
  · rw [htt]
    exact hself
  have hok := h.calls t'
  have hne : ∀ x, (m.call t').block = some x → m.holds t ≠ some x := by
    intro x hx hheld
    exact htt (inv.custody.single t' t x hx hheld)
  rw [hcall t' htt]
  cases hc : m.call t' with
  | filled msg urgent buffer =>
    rw [hc] at hok hne
    exact stores_congr hok (hbody msg (hne msg rfl))
  | copying msg size =>
    rw [hc] at hok hne
    have hmsg := hne msg rfl
    rw [CallOk, hcontent msg hmsg]
    exact ⟨hdelivered hok.1, stores_congr hok.2 (hbody msg hmsg)⟩
  | copied msg buffer =>
    rw [hc] at hok hne
    have hmsg := hne msg rfl
    rw [CallOk, hcontent msg hmsg]
    exact ⟨hdelivered hok.1, hok.2⟩
  | _ => exact trivial

/-- A step that leaves the blocks as they are and in which only the call of `t` changes. -/
lemma of_same (h : Intact m queued) (inv : Inv m queued free) (hbody : m'.mq.body = m.mq.body)
    (hcontent : m'.content = m.content) (hdelivered : m'.hist.delivered = m.hist.delivered)
    (hcall : ∀ t' ≠ t, m'.call t' = m.call t') (hself : CallOk m' (m'.call t)) :
    Intact m' queued where
  queue := by
    intro b hb
    rw [hcontent]
    exact stores_congr (h.queue b hb) (congrFun hbody b)
  calls := by
    refine h.calls_of_others inv (fun x _ => congrFun hbody x) (fun x _ => congrFun hcontent x) ?_
      hcall hself
    rw [hdelivered]
    exact List.Subset.refl _

lemma call_setCall_of_ne : ∀ t' ≠ t, (m.setCall t c).call t' = m.call t' := by
  intro t' htt
  simp [setCall, htt]

lemma call_setCall_self : (m.setCall t c).call t = c := by
  simp [setCall]

lemma fill (h : Intact m queued) (inv : Inv m queued free)
    (hcall : m.call t = .filling b urgent buffer) :
    Intact ({ m with mq := (if urgent then m.mq else m.mq.clearNext b).copyIn b buffer }.setCall t
      (.filled b urgent buffer)) queued := by
  have hheld : m.holds t = some b := holds_of_call hcall
  have hbody : ∀ x ≠ b,
      ((if urgent then m.mq else m.mq.clearNext b).copyIn b buffer).body x = m.mq.body x := by
    intro x hx
    cases urgent <;> exact update_of_ne hx _ _
  constructor
  · intro x hx
    have hne : x ≠ b := by
      rintro rfl
      exact inv.custody.held t x hheld (mem_append_left free hx)
    exact stores_congr (h.queue x hx) (hbody x hne)
  · refine h.calls_of_others inv (fun x hx => hbody x ?_) (fun _ _ => rfl) (List.Subset.refl _)
      call_setCall_of_ne ?_
    · rintro rfl
      exact hx hheld
    · rw [call_setCall_self]
      exact stores_copyIn _ b buffer

lemma link (h : Intact m queued) (inv : Inv m queued free)
    (hcall : m.call t = .filled b urgent buffer) :
    Intact ({ m with
      waits := w
      mq := if urgent then m.mq.linkHead b else m.mq.linkTail b
      content := update m.content b ⟨m.hist.links, buffer⟩
      hist := m.hist.link urgent buffer }.setCall t .idle)
      (if urgent then b :: queued else queued ++ [b]) := by
  have hheld : m.holds t = some b := holds_of_call hcall
  have hstores : Stores m.mq b buffer := by
    have hok := h.calls t
    rw [hcall] at hok
    exact hok
  have hbody : (if urgent then m.mq.linkHead b else m.mq.linkTail b).body = m.mq.body := by
    cases urgent <;> rfl
  constructor
  · intro x hx
    by_cases hxb : x = b
    · subst hxb
      simp only [setCall, update_self]
      exact stores_congr hstores (congrFun hbody x)
    · have hxq : x ∈ queued := by
        cases urgent <;> simpa [hxb] using hx
      simp only [setCall, update_of_ne hxb]
      exact stores_congr (h.queue x hxq) (congrFun hbody x)
  · refine h.calls_of_others inv (fun x _ => congrFun hbody x)
      (fun x hx => update_of_ne ?_ _ _) (List.Subset.refl _) call_setCall_of_ne ?_
    · rintro rfl
      exact hx hheld
    · rw [call_setCall_self]
      exact trivial

/-- The receiver gets a block with the bytes of its message. -/
lemma takeHead {q : List ℕ} (h : Intact m (msg :: q))
    (inv : Inv m (msg :: q) free) (hok : m.mq.takeHead = .ok (mq, msg)) (size : ℕ) :
    Intact ({ m with mq := mq, hist := m.hist.deliver (m.content msg) }.setCall t
      (.copying msg size)) q := by
  have hbody : mq.body = m.mq.body := by
    unfold MessageQueue.takeHead at hok
    split at hok
    case h_1 => cases hok
    case h_2 =>
      obtain ⟨rfl, -⟩ := Prod.mk.inj (ok.inj hok)
      rfl
  constructor
  · intro x hx
    exact stores_congr (h.queue x (mem_cons_of_mem msg hx)) (congrFun hbody x)
  · refine h.calls_of_others inv (fun x _ => congrFun hbody x) (fun _ _ => rfl)
      (subset_append_left _ _) call_setCall_of_ne ?_
    rw [call_setCall_self]
    refine ⟨mem_append_right _ (mem_singleton.mpr rfl), ?_⟩
    exact stores_congr (h.queue msg mem_cons_self) (congrFun hbody msg)

end Intact

/-! ## Steps -/

/-- The invariant, for some lists of blocks. -/
def Good (m : Machine T) : Prop := ∃ queued free, Inv m queued free ∧ Intact m queued

/-- The step delivers the first message of the queue, or none. -/
def DeliversFirst (m m' : Machine T) : Prop :=
  m'.hist.delivered = m.hist.delivered ∨
    ∃ msg, m.hist.queue = msg :: m'.hist.queue ∧ m'.hist.delivered = m.hist.delivered ++ [msg]

namespace Good

/-- A step that changes neither the message queue nor its history, and in which the call of `t` gets
or had no block. -/
lemma of_same (h : Good m) (hmq : m'.mq = m.mq) (hcontent : m'.content = m.content)
    (hhist : m'.hist = m.hist) (hcall : ∀ t' ≠ t, m'.call t' = m.call t')
    (hnone : m.holds t = none) (hnone' : m'.holds t = none) : Good m' := by
  obtain ⟨queued, free, inv, intact⟩ := h
  have hholds : m'.holds = m.holds := by
    funext t'
    by_cases htt : t' = t
    · rw [htt, hnone, hnone']
    · rw [holds, hcall t' htt, holds]
  refine ⟨queued, free, inv.of_same hmq hholds (fun t' msg buffer hc => ?_) hcontent hhist,
    intact.of_same inv (by rw [hmq]) hcontent (by rw [hhist]) hcall ?_⟩
  · by_cases htt : t' = t
    · rw [htt] at hc
      rw [holds_of_call hc] at hnone'
      cases hnone'
    · rwa [hcall t' htt] at hc
  · -- a call without a block has no bytes
    cases hc : m'.call t with
    | idle => exact trivial
    | waiting size timeout tickDelta => exact trivial
    | _ =>
      rw [holds_of_call hc] at hnone'
      cases hnone'

omit [DecidableEq T] in
/-- The threads and the tick do not matter. -/
lemma setWaits (h : Good m) (w : Waits T Unit) (n : UInt32) : Good { m with waits := w, now := n } := by
  obtain ⟨queued, free, inv, intact⟩ := h
  refine ⟨queued, free, inv.of_same rfl rfl (fun _ _ _ hc => hc) rfl rfl, intact.queue, fun t => ?_⟩
  have hcall := intact.calls t
  cases hc : m.call t <;> rw [hc] at hcall <;> exact hcall

/-- `rt_mq_recv` up to its wait or its copy returns. -/
lemma recvMsg (h : Good m) (hnone : m.holds t = none) (size : ℕ) (timeout : Int32)
    (tickDelta : UInt32) :
    ∃ m', recvMsg m t size timeout tickDelta = .ok m' ∧ Good m' ∧ DeliversFirst m m' := by
  unfold MessageQueue.recvMsg
  by_cases hempty : m.mq.entry = 0
  · rw [if_pos hempty]
    by_cases htime : timeout = 0
    · rw [if_pos htime]
      exact ⟨_, rfl, h.of_same rfl rfl rfl Intact.call_setCall_of_ne hnone
        (holds_of_call Intact.call_setCall_self), .inl rfl⟩
    · rw [if_neg htime]
      exact ⟨_, rfl, h.of_same rfl rfl rfl Intact.call_setCall_of_ne hnone
        (holds_of_call Intact.call_setCall_self), .inl rfl⟩
  · rw [if_neg hempty]
    obtain ⟨queued, free, inv, intact⟩ := h
    obtain ⟨mq, msg, q, hok, rfl, hqueue, hinv⟩ := inv.takeHead hnone hempty
    rw [hok, ok_bind]
    refine ⟨_, rfl, ⟨q, free, hinv size, intact.takeHead inv hok size⟩,
      .inr ⟨m.content msg, ?_, rfl⟩⟩
    simp only [setCall, History.deliver, hqueue, tail_cons]

lemma control (h : Good m) (cmd : ℤ) {m' : Machine T} (hok : step m (.control cmd) = some m') :
    Good m' ∧ DeliversFirst m m' := by
  obtain ⟨queued, free, inv, intact⟩ := h
  simp only [step, rtMqControl] at hok
  by_cases hcmd : cmd = rtIpcCmdReset
  · obtain ⟨mq, hrelease, hbody, hinv⟩ := inv.reset (m.waits.resumeAll ())
    simp only [if_pos hcmd, hrelease, ok_bind, some.injEq] at hok
    rw [← hok]
    refine ⟨⟨[], _, hinv, fun b hb => absurd hb not_mem_nil, fun t => ?_⟩, .inl rfl⟩
    -- the calls go on with their blocks
    have hcall := intact.calls t
    cases hc : m.call t with
    | filled msg urgent buffer =>
      rw [hc] at hcall
      exact Intact.stores_congr hcall (congrFun hbody msg)
    | copying msg size =>
      rw [hc] at hcall
      exact ⟨hcall.1, Intact.stores_congr hcall.2 (congrFun hbody msg)⟩
    | copied msg buffer =>
      rw [hc] at hcall
      exact hcall
    | _ => exact trivial
  · simp only [if_neg hcmd, some.injEq] at hok
    rw [← hok]
    exact ⟨⟨queued, free, inv, intact⟩, .inl rfl⟩

/-- A step keeps the invariant, and it delivers messages from the head of the queue only. -/
lemma step {a : Act T} (h : Good m) (hok : step m a = some m') :
    Good m' ∧ DeliversFirst m m' := by
  cases a with
  | send t urgent buffer =>
    simp only [MessageQueue.step] at hok
    split at hok
    case isFalse => cases hok
    case isTrue hcond =>
      obtain rfl := some.inj hok
      obtain ⟨queued, free, inv, intact⟩ := h
      obtain ⟨free', hinv⟩ := inv.sendStart hcond.1 urgent buffer
      have hrest : Intact (sendStart m t urgent buffer) queued ∧
          DeliversFirst m (sendStart m t urgent buffer) := by
        unfold MessageQueue.sendStart MessageQueue.takeFree
        split
        case isTrue => exact ⟨intact, .inl rfl⟩
        case isFalse =>
          cases m.mq.msgQueueFree with
          | none => exact ⟨intact, .inl rfl⟩
          | some msg =>
            refine ⟨intact.of_same inv rfl rfl rfl Intact.call_setCall_of_ne ?_, .inl rfl⟩
            rw [Intact.call_setCall_self]
            exact trivial
      exact ⟨⟨queued, free', hinv, hrest.1⟩, hrest.2⟩
  | fill t =>
    simp only [MessageQueue.step] at hok
    split at hok
    case h_1 msg urgent buffer hcall =>
      obtain rfl := some.inj hok
      obtain ⟨queued, free, inv, intact⟩ := h
      exact ⟨⟨queued, free, inv.fill hcall, intact.fill inv hcall⟩, .inl rfl⟩
    case h_2 => cases hok
  | link t =>
    simp only [MessageQueue.step] at hok
    split at hok
    case h_1 msg urgent buffer hcall =>
      obtain rfl := some.inj hok
      obtain ⟨queued, free, inv, intact⟩ := h
      exact ⟨⟨_, free, inv.link hcall, intact.link inv hcall⟩, .inl rfl⟩
    case h_2 => cases hok
  | recv t size timeout =>
    simp only [MessageQueue.step] at hok
    split at hok
    case isFalse => cases hok
    case isTrue hcond =>
      rw [toOption_eq_some, rtMqRecv] at hok
      split at hok
      case isTrue =>
        obtain rfl := ok.inj hok
        exact ⟨h, .inl rfl⟩
      case isFalse =>
        obtain ⟨m₁, hrecv, hgood⟩ := h.recvMsg (holds_of_call hcond.1) size timeout 0
        obtain rfl := ok.inj (hrecv.symm.trans hok)
        exact hgood
  | timeout t =>
    obtain ⟨w, -, rfl⟩ := map_eq_some_iff.mp hok
    exact ⟨h.setWaits w m.now, .inl rfl⟩
  | proceed t =>
    simp only [MessageQueue.step] at hok
    split at hok
    case h_2 => cases hok
    case h_1 size timeout tickDelta hphase hcall =>
      rw [toOption_eq_some, rtMqRecvResumed] at hok
      have hwake := h.setWaits (m.waits.wake t) m.now
      have hnone : m.holds t = none := holds_of_call hcall
      split at hok
      case isTrue =>
        obtain rfl := ok.inj hok
        exact ⟨hwake.of_same rfl rfl rfl Intact.call_setCall_of_ne hnone
          (holds_of_call Intact.call_setCall_self), .inl rfl⟩
      case isFalse =>
        obtain ⟨m₁, hrecv, hgood⟩ := hwake.recvMsg hnone size
          (remainingTimeout timeout tickDelta m.now) tickDelta
        obtain rfl := ok.inj (hrecv.symm.trans hok)
        exact hgood
  | copy t =>
    simp only [MessageQueue.step] at hok
    split at hok
    case h_1 msg size hcall =>
      obtain rfl := some.inj hok
      obtain ⟨queued, free, inv, intact⟩ := h
      have hcopying := intact.calls t
      rw [hcall] at hcopying
      refine ⟨⟨queued, free, inv.of_same rfl (holds_setCall_same (holds_of_call hcall).symm)
        (fun t' x buffer hc => (Inv.filled_setCall (by simp) hc).2) rfl rfl, ?_⟩, .inl rfl⟩
      refine intact.of_same inv rfl rfl rfl Intact.call_setCall_of_ne ?_
      rw [Intact.call_setCall_self]
      exact ⟨hcopying.1, received_copyOut size hcopying.2⟩
    case h_2 => cases hok
  | release t =>
    simp only [MessageQueue.step] at hok
    split at hok
    case h_1 msg buffer hcall =>
      obtain rfl := some.inj hok
      obtain ⟨queued, free, inv, intact⟩ := h
      refine ⟨⟨queued, msg :: free, inv.release hcall, ?_⟩, .inl rfl⟩
      refine intact.of_same inv rfl rfl rfl Intact.call_setCall_of_ne ?_
      rw [Intact.call_setCall_self]
      exact trivial
    case h_2 => cases hok
  | control cmd => exact h.control cmd hok
  | setPriority t p =>
    obtain rfl := some.inj hok
    exact ⟨h.setWaits _ m.now, .inl rfl⟩
  | tick =>
    obtain rfl := some.inj hok
    exact ⟨h.setWaits m.waits _, .inl rfl⟩

omit [DecidableEq T] in
lemma init (hinit : Initial m) : Good m := by
  obtain ⟨msgSize, maxMsgs, next, body, hmq⟩ := hinit.mq
  obtain ⟨-, -, hentry, hmax⟩ :=
    initFree_fields ⟨msgSize, maxMsgs, 0, none, none, none, next, body⟩ maxMsgs.toNat
  have hnone : ∀ t, m.holds t = none := fun t => holds_of_call (hinit.idle t)
  refine ⟨[], (range maxMsgs.toNat).reverse, ⟨?_, ?_, ?_, ?_, ?_, ?_⟩, ?_, ?_⟩
  · rw [hmq]
    exact chains_setup msgSize maxMsgs next body
  · have hmaxMsgs : m.mq.maxMsgs = maxMsgs := by
      rw [hmq]
      exact hmax
    simp only [hmaxMsgs, nil_append]
    exact {
      nodup := nodup_reverse.mpr nodup_range
      held := fun t b ht => by simp [hnone] at ht
      single := fun t t' b ht => by simp [hnone] at ht
      cover := fun b => by simp [hnone] }
  · rw [hmq, setup, hentry]
    rfl
  · intro t msg buffer hcall
    rw [hinit.idle] at hcall
    cases hcall
  · rw [hinit.hist]
    rfl
  · rw [hinit.hist]
    exact ⟨nodup_nil, fun _ hmem => absurd hmem not_mem_nil⟩
  · exact fun _ hmem => absurd hmem not_mem_nil
  · intro t
    rw [hinit.idle]
    exact trivial

end Good

/-! ## Whole runs -/

/-- The blocks are in the queue, in the free list, or in the hands of one call; the queue has the
messages of the history, which are delivered from its head and once each. -/
structure WellQueued (m : Machine T) : Prop where
  /-- The queue and the free list, with the blocks in no list in the hands of one call each. -/
  blocks : ∃ queued free, Chain m.mq.next m.mq.msgQueueHead queued ∧
    Chain m.mq.next m.mq.msgQueueFree free ∧
    Custody (· < m.mq.maxMsgs.toNat) (fun t => (m.call t).block) (queued ++ free) ∧
    m.mq.entry.toNat = queued.length ∧ m.mq.msgQueueTail = queued.getLast? ∧
    queued.map m.content = m.hist.queue
  once : ((m.hist.queue ++ m.hist.delivered).map Msg.id).Nodup
  first : ∀ a m', step m a = some m' → DeliversFirst m m'
  /-- A receiver has the bytes of a delivered message. -/
  received : ∀ t msg buffer, m.call t = .copied msg buffer →
    m.content msg ∈ m.hist.delivered ∧ Received (m.content msg).data buffer
  /-- No call fails to return. -/
  returns : (m.mq.entry ≠ 0 → ∃ result, m.mq.takeHead = .ok result) ∧
    ∀ cmd, ∃ result, rtMqControl m.waits m.mq cmd = .ok result

/-- In every run of the parts of sends, receives, timeouts and resets, the message queue is well
kept. -/
theorem wellQueued_of_reach (hm : Reach Initial step (fun _ _ => True) m) : WellQueued m := by
  have hgood : Good m := by
    apply hm.invariant (I := Good)
    · exact fun m hinit => Good.init hinit
    · exact fun m a m' h _ hok => (h.step hok).1
  obtain ⟨queued, free, inv, intact⟩ := hgood
  refine ⟨⟨queued, free, inv.chains.queue, inv.chains.spare, inv.custody, inv.entry,
    inv.chains.tail, inv.contents⟩, inv.fresh.nodup,
    fun a m' hok => (Good.step ⟨queued, free, inv, intact⟩ hok).2, ?_, ?_, ?_⟩
  · intro t msg buffer hcall
    have hok := intact.calls t
    rwa [hcall] at hok
  · intro hsome
    obtain ⟨msg, hhead⟩ := inv.head hsome
    exact ⟨_, by rw [takeHead, hhead]⟩
  · intro cmd
    unfold rtMqControl
    split
    · obtain ⟨mq, hrelease, -⟩ := inv.reset m.waits
      rw [hrelease, ok_bind]
      exact ⟨_, rfl⟩
    · exact ⟨_, rfl⟩

/-- Two normal messages and an urgent one. While a receiver copies the urgent message, which came
before the others, the queue is reset. -/
theorem wellQueued_reset_while_copying : ∃ m : Machine Bool,
    m.call true = .copied 1 [3, 0] ∧ m.hist.delivered = [⟨1, [3]⟩] ∧ WellQueued m := by
  obtain ⟨m, hreach, hcall, hdelivered⟩ : ∃ m : Machine Bool,
      Reach Initial step (fun _ _ => True) m ∧ m.call true = .copied 1 [3, 0] ∧
        m.hist.delivered = [⟨1, [3]⟩] :=
    exists_of_free_run (s := ⟨⟨fun _ => ⟨20, .eok, .running⟩, fun _ => [], fun _ => .fifo⟩,
        rtMqInit 4 24 (fun _ => none) (fun _ _ => 0), 0, fun _ => .idle, fun _ => ⟨0, []⟩,
        ⟨0, [], []⟩⟩) ⟨⟨_, _, _, _, rfl⟩, fun _ => rfl, rfl, fun _ => rfl, rfl⟩
      [.send false false [1, 2], .fill false, .link false, .send false true [3], .fill false,
        .link false, .send false false [4], .fill false, .recv true 2 0, .control 1, .copy true,
        .link false] (by decide +kernel)
  exact ⟨m, hcall, hdelivered, wellQueued_of_reach hreach⟩

end Ipc.MessageQueue

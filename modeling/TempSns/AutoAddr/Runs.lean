import TempSns.AutoAddr.Frames

/-!
# Addresses in undisturbed runs

The invariant of a chain. `NodeOk` is about one node: its pins are as its place in the thread says, and
its address and its received data are zero or its position. `LinkOk` is about a node and the next one:
during a frame the receiver has counted the bits that the sender has sent.
-/

namespace AutoAddr

open Function List Transition

variable {latch : Bool} {i : ℕ} {nd nd' s s' r r' : Node} {sent : List UInt8} {upI upO downO : Bool}

/-! ## One node -/

def PinsOk (latch : Bool) (nd : Node) : Prop :=
  match nd.pc with
  | .delay => nd.downI = ⟨.input, latch⟩
  | .modeI => nd.downI = ⟨.outputOd, latch⟩
  | .modeO => nd.downI = ⟨.outputOd, latch⟩ ∧ nd.downO.mode = .outputOd
  | .bit k temp _ => nd.downI = ⟨.outputOd, true⟩ ∧ nd.downO = ⟨.outputOd, frameBit temp k⟩
  | .edge k temp _ => nd.downI = ⟨.outputOd, false⟩ ∧ nd.downO = ⟨.outputOd, frameBit temp k⟩
  | _ => nd.downI = ⟨.outputOd, true⟩ ∧ nd.downO.mode = .outputOd

/-- A frame that a node sends has its address plus one. -/
def TxOk (nd : Node) : Prop :=
  match nd.pc with
  | .bit k temp _ => k < 8 ∧ temp = frame (nd.inst.autoAddr + 1) ∧
      (nd.inst.fsm = .push ∨ nd.inst.fsm = .succ)
  | .edge k temp _ => k < 8 ∧ temp = frame (nd.inst.autoAddr + 1) ∧
      (nd.inst.fsm = .push ∨ nd.inst.fsm = .succ)
  | _ => True

/-- The invariant of the node `i`. -/
structure NodeOk (latch : Bool) (i : ℕ) (nd : Node) : Prop where
  pins : PinsOk latch nd
  tx : TxOk nd
  addr : nd.inst.autoAddr = 0 ∨ nd.inst.autoAddr.toNat = i + 1
  addr_lt : nd.inst.autoAddr.toNat < 64
  pushes : nd.inst.fsm = .push ∨ nd.inst.fsm = .succ → nd.inst.autoAddr.toNat = i + 1
  rxd : nd.inst.rxd = 0 ∨ 0 < i ∧ nd.inst.rxd.toNat = i + 1
  rxd_lt : nd.inst.rxd.toNat < 64

lemma toNat_zero_lt : (0 : UInt8).toNat < 64 := by decide

namespace NodeOk

lemma init (latch : Bool) (i : ℕ) : NodeOk latch i (offNode latch) where
  pins := rfl
  tx := trivial
  addr := .inl rfl
  addr_lt := toNat_zero_lt
  pushes := by rintro (h | h) <;> cases h
  rxd := .inl rfl
  rxd_lt := toNat_zero_lt

lemma clock_up (h : NodeOk latch i nd) (hframe : nd.inFrame = false)
    (hstart : latch = false → nd.startsUp = false) : nd.downI.releases = true := by
  have hpins := h.pins
  unfold PinsOk at hpins
  unfold Node.inFrame at hframe
  unfold Node.startsUp at hstart
  cases hpc : nd.pc with
  | delay =>
    simp only [hpc] at hpins
    rw [hpins]
    rfl
  | modeI =>
    simp only [hpc] at hpins hstart
    rw [hpins]
    cases latch with
    | true => rfl
    | false => exact absurd (hstart rfl) (by decide)
  | modeO =>
    simp only [hpc] at hpins hstart
    rw [hpins.1]
    cases latch with
    | true => rfl
    | false => exact absurd (hstart rfl) (by decide)
  | bit k temp txBuf => simp [hpc] at hframe
  | edge k temp txBuf => simp [hpc] at hframe
  | _ =>
    simp only [hpc] at hpins
    rw [hpins.1]
    rfl

/-- The interrupt handler of a node, if the data that it gives is right. -/
lemma receive (h : NodeOk latch i nd) (hrec : Received nd nd')
    (hrxd : nd'.inst.rxd = 0 ∨ 0 < i ∧ nd'.inst.rxd.toNat = i + 1) (hlt : nd'.inst.rxd.toNat < 64) :
    NodeOk latch i nd' where
  pins := by
    have hpins := h.pins
    unfold PinsOk at hpins ⊢
    rwa [hrec.pc, hrec.downI, hrec.downO]
  tx := by
    have htx := h.tx
    unfold TxOk at htx ⊢
    rwa [hrec.pc, hrec.autoAddr, hrec.fsm]
  addr := by
    rw [hrec.autoAddr]
    exact h.addr
  addr_lt := by
    rw [hrec.autoAddr]
    exact h.addr_lt
  pushes := by
    rw [hrec.fsm, hrec.autoAddr]
    exact h.pushes
  rxd := hrxd
  rxd_lt := hlt

/-- The next step of a node. Only the first node may find its clock line low in `FSM_PREP`. -/
lemma move (h : NodeOk latch i nd) (hmove : Move upI upO downO nd nd')
    (hprep : nd.pc = .upILow → upO = false → i = 0) : NodeOk latch i nd' := by
  have hpins := h.pins
  have htx := h.tx
  unfold PinsOk at hpins
  unfold TxOk at htx
  cases hmove with
  | modeI hpc | modeO hpc =>
    simp only [hpc] at hpins
    exact { h with pins := by simp [PinsOk, hpins, rtPinMode], tx := trivial }
  | writeI hpc | writeO hpc =>
    simp only [hpc] at hpins
    exact { h with pins := by simp [PinsOk, hpins, rtPinWrite], tx := trivial }
  | started hpc =>
    simp only [hpc] at hpins
    refine ⟨hpins, trivial, .inl rfl, toNat_zero_lt, ?_, .inl rfl, toNat_zero_lt⟩
    rintro (hfsm | hfsm) <;> cases hfsm
  | toState fsm hpc hfsm =>
    refine ⟨?_, trivial, h.addr, h.addr_lt, ?_, h.rxd, h.rxd_lt⟩
    · rcases hpc with hpc | hpc <;> simp only [hpc] at hpins <;> exact hpins
    · rintro (hpush | hpush) <;> rcases hfsm with rfl | rfl <;> cases hpush
  | upILow hpc hfsm =>
    simp only [hpc] at hpins
    exact { h with pins := hpins, tx := trivial }
  | first hpc hlow =>
    simp only [hpc] at hpins
    obtain rfl := hprep hpc hlow
    exact ⟨hpins, trivial, .inr rfl, (by decide : (1 : UInt8).toNat < 64), fun _ => rfl, h.rxd,
      h.rxd_lt⟩
  | accept hpc hfsm hrxd =>
    -- the received data is the position
    simp only [hpc] at hpins
    obtain ⟨-, hpos⟩ := h.rxd.resolve_left hrxd
    exact ⟨hpins, trivial, .inr hpos, h.rxd_lt, fun _ => hpos, h.rxd, h.rxd_lt⟩
  | clear hpc hfsm =>
    simp only [hpc] at hpins
    exact ⟨hpins, trivial, h.addr, h.addr_lt, h.pushes, .inl rfl, toNat_zero_lt⟩
  | begins hpc hfsm =>
    simp only [hpc] at hpins
    exact { h with pins := by simp [PinsOk, hpins, rtPinWrite], tx := ⟨by decide, rfl, hfsm⟩ }
  | edge k temp txBuf hpc =>
    simp only [hpc] at hpins htx
    exact { h with pins := by simp [PinsOk, hpins, rtPinWrite], tx := htx }
  | bit k temp txBuf txBuf' hpc hk =>
    simp only [hpc] at hpins htx
    exact { h with pins := by simp [PinsOk, hpins, rtPinWrite], tx := ⟨hk, htx.2⟩ }
  | ends k temp txBuf txBuf' fsm hpc hk =>
    simp only [hpc] at hpins htx
    exact ⟨by simp [PinsOk, hpins, rtPinWrite], trivial, h.addr, h.addr_lt,
      fun _ => h.pushes htx.2.2, h.rxd, h.rxd_lt⟩

end NodeOk

/-! ## Two neighbours -/

/-- What a receiver has counted at a place of the sender. -/
def Synced (latch : Bool) (pc : Pc) (inst : Inst) : Prop :=
  match pc with
  | .delay => inst.cnt = 0
  | .bit k temp _ => inst.cnt.toNat = k ∧ Holds temp inst.sr k
  | .edge k temp _ =>
    (k < 7 → inst.cnt.toNat = k + 1 ∧ Holds temp inst.sr (k + 1)) ∧ (k = 7 → inst.cnt = 0)
  | _ => latch = true → inst.cnt = 0

/-- The invariant of a sender `s` and its receiver `r`; `sent` are the frames of the sender. -/
structure LinkOk (latch : Bool) (s r : Node) (sent : List UInt8) : Prop where
  synced : r.irq = true → Synced latch s.pc r.inst
  rxd : r.inst.rxd = 0 ∨ r.inst.rxd ∈ sent ∨
    (∃ temp txBuf, s.pc = .edge 7 temp txBuf) ∧ r.inst.rxd = s.inst.autoAddr + 1
  accepted : r.inst.autoAddr = 0 ∨ r.inst.autoAddr ∈ sent

namespace LinkOk

lemma init (latch : Bool) : LinkOk latch (offNode latch) (offNode latch) [] :=
  ⟨nofun, .inl rfl, .inl rfl⟩

lemma rxd_of_not_last (h : LinkOk latch s r sent) (hpc : ∀ temp txBuf, s.pc ≠ .edge 7 temp txBuf) :
    r.inst.rxd = 0 ∨ r.inst.rxd ∈ sent := by
  rcases h.rxd with hzero | hmem | ⟨⟨temp, txBuf, hlast⟩, -⟩
  · exact .inl hzero
  · exact .inr hmem
  · exact absurd hlast (hpc temp txBuf)

lemma sender_receives (h : LinkOk latch s r sent) (hrec : Received s s') :
    LinkOk latch s' r sent := by
  refine ⟨?_, ?_, h.accepted⟩
  · rw [hrec.pc]
    exact h.synced
  · rw [hrec.pc, hrec.autoAddr]
    exact h.rxd

lemma synced_of_zero {inst : Inst} (hframe : s.inFrame = false) (hcnt : inst.cnt = 0) :
    Synced latch s.pc inst := by
  unfold Synced
  unfold Node.inFrame at hframe
  cases hpc : s.pc with
  | bit k temp txBuf => simp [hpc] at hframe
  | edge k temp txBuf => simp [hpc] at hframe
  | delay => exact hcnt
  | _ => exact fun _ => hcnt

lemma receiver_moves (h : LinkOk latch s r sent)
    (hmove : Move upI upO downO r r') (hclock : r.pc = .upILow → upO = true)
    (hframe : r.starts = true ∨ r.polls = true → s.inFrame = false) : LinkOk latch s r' sent := by
  have hnot : r.starts = true ∨ r.polls = true → ∀ temp txBuf, s.pc ≠ .edge 7 temp txBuf := by
    intro hr temp txBuf hpc
    have hin := hframe hr
    simp [Node.inFrame, hpc] at hin
  cases hmove with
  | started hpc =>
    have hstarts : r.starts = true := by simp [Node.starts, hpc]
    exact ⟨fun _ => synced_of_zero (hframe (.inl hstarts)) rfl, .inl rfl, .inl rfl⟩
  | first hpc hlow => exact absurd (hclock hpc) (by simp [hlow])
  | accept hpc hfsm hrxd =>
    -- the frame of the received data is complete
    have hpolls : r.polls = true := by simp [Node.polls, hpc, hfsm]
    have hmem := (h.rxd_of_not_last (hnot (.inr hpolls))).resolve_left hrxd
    exact ⟨nofun, h.rxd, .inr hmem⟩
  | clear hpc hfsm =>
    have hpolls : r.polls = true := by simp [Node.polls, hpc, hfsm]
    exact ⟨fun _ => synced_of_zero (hframe (.inr hpolls)) rfl, .inl rfl, h.accepted⟩
  | toState fsm hpc hfsm =>
    refine ⟨fun hirq => ?_, h.rxd, h.accepted⟩
    have hsync := h.synced hirq
    unfold Synced at hsync ⊢
    exact hsync
  | ends k temp txBuf txBuf' fsm hpc hk =>
    refine ⟨fun hirq => ?_, h.rxd, h.accepted⟩
    have hsync := h.synced hirq
    unfold Synced at hsync ⊢
    exact hsync
  | _ => exact ⟨h.synced, h.rxd, h.accepted⟩

/-- The clock line goes down when the pins are set up with a low latch, and for every bit. -/
lemma falls_cases (hs : NodeOk latch i s) (hmove : Move upI upO downO s s')
    (hup : s.downI.releases = true) (hdown : s'.downI.releases = false) :
    (s.pc = .delay ∧ s'.pc = .modeI ∧ latch = false) ∨
      ∃ k temp txBuf, s.pc = .bit k temp txBuf ∧ s'.pc = .edge k temp txBuf ∧
        s'.downO = s.downO ∧ s'.inst = s.inst := by
  have hpins := hs.pins
  unfold PinsOk at hpins
  cases hmove with
  | modeI hpc =>
    simp only [hpc] at hpins
    refine .inl ⟨hpc, rfl, ?_⟩
    simpa [hpins, rtPinMode, Pin.releases] using hdown
  | edge k temp txBuf hpc => exact .inr ⟨k, temp, txBuf, hpc, rfl, rfl, rfl⟩
  | writeI hpc =>
    simp only [hpc] at hpins
    simp [hpins, rtPinWrite, Pin.releases] at hdown
  | bit k temp txBuf txBuf' hpc hk =>
    simp only [hpc] at hpins
    simp [hpins, rtPinWrite, Pin.releases] at hdown
  | ends k temp txBuf txBuf' fsm hpc hk =>
    simp only [hpc] at hpins
    simp [hpins, rtPinWrite, Pin.releases] at hdown
  | _ => exact absurd hup (by simp only at hdown; simp [hdown])

/-- The sender lets the clock line go down, and the receiver gets a bit. -/
lemma sender_falls (h : LinkOk latch s r sent) (hs : NodeOk latch i s)
    (hr : NodeOk latch (i + 1) r) (hmove : Move upI upO downO s s')
    (hup : s.downI.releases = true) (hdown : s'.downI.releases = false) (hirq : r.irq = true) :
    LinkOk latch s' (autoaddrRxCb s'.downO.releases r) sent ∧
      NodeOk latch (i + 1) (autoaddrRxCb s'.downO.releases r) := by
  have hrec := received_autoaddrRxCb s'.downO.releases r
  have hsync := h.synced hirq
  have hacc : (autoaddrRxCb s'.downO.releases r).inst.autoAddr = 0 ∨
      (autoaddrRxCb s'.downO.releases r).inst.autoAddr ∈ sent := by
    rw [hrec.autoAddr]
    exact h.accepted
  unfold Synced at hsync
  rcases falls_cases hs hmove hup hdown with ⟨hpc, hpc', hlatch⟩ |
    ⟨k, temp, txBuf, hpc, hpc', hdownO, hinst⟩
  · -- the start of the sender: the receiver counts a bit that is none
    simp only [hpc] at hsync
    obtain ⟨-, -, hrxd⟩ := autoaddrRxCb_of_lt s'.downO.releases (congrArg UInt8.toNat hsync)
      (by decide : (0 : UInt8).toNat < 7)
    refine ⟨⟨fun _ => ?_, ?_, hacc⟩, hr.receive hrec (by rw [hrxd]; exact hr.rxd)
      (by rw [hrxd]; exact hr.rxd_lt)⟩
    · rw [hpc']
      exact fun htrue => absurd htrue (by simp [hlatch])
    · rw [hrxd]
      exact (h.rxd_of_not_last (by simp [hpc])).imp id .inl
  · -- the bit `k` of a frame is on the data line
    have hpins := hs.pins
    have htx := hs.tx
    simp only [PinsOk, TxOk, hpc] at hpins htx hsync
    have hbit : s'.downO.releases = frameBit temp k := by
      rw [hdownO, hpins.2]
      rfl
    have hholds := hsync.2.shiftIn htx.1
    rcases Nat.lt_or_ge k 7 with hk | hk
    · obtain ⟨hcnt, hsr, hrxd⟩ := autoaddrRxCb_of_lt s'.downO.releases hsync.1 hk
      refine ⟨⟨fun _ => ?_, ?_, hacc⟩, hr.receive hrec (by rw [hrxd]; exact hr.rxd)
        (by rw [hrxd]; exact hr.rxd_lt)⟩
      · rw [hpc']
        refine ⟨fun _ => ⟨hcnt, ?_⟩, fun hseven => absurd hseven (by omega)⟩
        rw [hsr, hbit]
        exact hholds
      · rw [hrxd]
        exact (h.rxd_of_not_last (by simp [hpc])).imp id .inl
    · -- the last bit: the received data is the data of the frame
      obtain rfl : k = 7 := by omega
      obtain ⟨hcnt, hrxd⟩ := autoaddrRxCb_of_seven s'.downO.releases hsync.1
      have haddr := hs.pushes htx.2.2
      have haddrlt := hs.addr_lt
      have hsum : (s.inst.autoAddr + 1).toNat = i + 2 := by
        rw [UInt8.toNat_add, haddr]
        exact Nat.mod_eq_of_lt (by simp; omega)
      have hdata : (autoaddrRxCb s'.downO.releases r).inst.rxd.toNat = (i + 2) % 64 := by
        rw [hrxd, hbit, hholds.eq_frame, htx.2.1, toNat_frame_shiftRight, hsum]
      have hcases : (autoaddrRxCb s'.downO.releases r).inst.rxd = 0 ∨
          (autoaddrRxCb s'.downO.releases r).inst.rxd.toNat = i + 2 := by
        rcases Nat.lt_or_ge (i + 2) 64 with hlt | hge
        · exact .inr (by rw [hdata, Nat.mod_eq_of_lt hlt])
        · have hzero : (i + 2) % 64 = 0 := by omega
          exact .inl (UInt8.toNat_inj.mp (by rw [hdata, hzero]; rfl))
      refine ⟨⟨fun _ => ?_, ?_, hacc⟩, hr.receive hrec ?_ ?_⟩
      · rw [hpc']
        exact ⟨fun hlt => absurd hlt (by decide), fun _ => hcnt⟩
      · refine hcases.imp id fun hpos => .inr ⟨⟨temp, txBuf, hpc'⟩, ?_⟩
        rw [hinst]
        exact UInt8.toNat_inj.mp (hpos.trans hsum.symm)
      · exact hcases.imp id fun hpos => ⟨Nat.succ_pos i, hpos⟩
      · rw [hdata]
        exact Nat.mod_lt _ (by decide)

/-- The frames of a sender after its next step. -/
def sentAfter (s : Node) (sent : List UInt8) : List UInt8 :=
  match s.pc with
  | .edge 7 _ _ => sent ++ [s.inst.autoAddr + 1]
  | _ => sent

/-- The sender makes a step that gives the receiver no bit. -/
lemma sender_moves (h : LinkOk latch s r sent) (hs : NodeOk latch i s)
    (hmove : Move upI upO downO s s')
    (hquiet : r.irq = true → s.downI.releases = true → s'.downI.releases = true)
    (hbegins : r.irq = true → latch = false → s.startsFrame = true → r.inst.cnt = 0) :
    LinkOk latch s' r (sentAfter s sent) := by
  have hpins := hs.pins
  have htx := hs.tx
  have hsync := h.synced
  unfold PinsOk at hpins
  unfold TxOk at htx
  unfold Synced at hsync
  unfold sentAfter
  cases hmove with
  | modeI hpc =>
    have hrxd := h.rxd_of_not_last (by simp [hpc])
    simp only [hpc] at hsync ⊢
    exact ⟨fun hirq _ => hsync hirq, hrxd.imp id .inl, h.accepted⟩
  | begins hpc hfsm =>
    have hrxd := h.rxd_of_not_last (by simp [hpc])
    simp only [hpc] at hsync ⊢
    refine ⟨fun hirq => ?_, hrxd.imp id .inl, h.accepted⟩
    have hcnt : r.inst.cnt = 0 := by
      cases hlatch : latch with
      | true => exact hsync hirq hlatch
      | false => exact hbegins hirq hlatch (by simp [Node.startsFrame, hpc, hfsm])
    exact ⟨congrArg UInt8.toNat hcnt, holds_zero _ _⟩
  | edge k temp txBuf hpc =>
    -- the clock line goes down, so the receiver has disabled its interrupt
    have hrxd := h.rxd_of_not_last (by simp [hpc])
    simp only [hpc] at hpins ⊢
    refine ⟨fun hirq => ?_, hrxd.imp id .inl, h.accepted⟩
    have hup := hquiet hirq (by simp [hpins, Pin.releases])
    simp [hpins, rtPinWrite, Pin.releases] at hup
  | bit k temp txBuf txBuf' hpc hk =>
    have hne : k ≠ 7 := by omega
    have hrxd := h.rxd_of_not_last (by simp [hpc, hne])
    simp only [hpc] at hsync ⊢
    split
    case h_1 heq => exact absurd (Pc.edge.inj heq).1 hne
    case h_2 =>
      exact ⟨fun hirq => (hsync hirq).1 (by omega), hrxd.imp id .inl, h.accepted⟩
  | ends k temp txBuf txBuf' fsm hpc hk =>
    -- the frame is complete
    simp only [hpc] at htx hsync
    obtain rfl : k = 7 := by omega
    simp only [hpc]
    refine ⟨fun hirq _ => (hsync hirq).2 rfl, h.rxd.imp id fun hrxd => .inl ?_,
      h.accepted.imp id (mem_append_left _)⟩
    rcases hrxd with hmem | ⟨-, heq⟩
    · exact mem_append_left _ hmem
    · exact mem_append_right _ (mem_singleton.mpr heq)
  | toState fsm hpc hfsm =>
    rcases hpc with hpc | hpc
    all_goals
      have hrxd := h.rxd_of_not_last (by simp [hpc])
      simp only [hpc] at hsync ⊢
      exact ⟨hsync, hrxd.imp id .inl, h.accepted⟩
  | modeO hpc | writeI hpc | writeO hpc | started hpc | upILow hpc | first hpc | accept hpc
  | clear hpc =>
    have hrxd := h.rxd_of_not_last (by simp [hpc])
    simp only [hpc] at hsync ⊢
    exact ⟨hsync, hrxd.imp id .inl, h.accepted⟩

end LinkOk

/-! ## Chain -/

variable {c c' : Chain} {a : Act}

def Inv (latch : Bool) (c : Chain) : Prop :=
  ∀ i, NodeOk latch i (c.node i) ∧ LinkOk latch (c.node i) (c.node (i + 1)) (c.sent i)

lemma inv_of_initial (h : Initial latch c) : Inv latch c := by
  intro i
  rw [h.1, h.1, h.2]
  exact ⟨NodeOk.init latch i, LinkOk.init latch⟩

/-- A step changes one node, and perhaps the node behind it and the frames. -/
lemma links_update {P : ℕ → Node → Node → List UInt8 → Prop} {sent' : List UInt8}
    (h : ∀ j, P j (c.node j) (c.node (j + 1)) (c.sent j)) (hlink : P i s' r' sent')
    (hbefore : ∀ j, i = j + 1 → P j (c.node j) s' (c.sent j))
    (hafter : P (i + 1) r' (c.node (i + 2)) (c.sent (i + 1))) (j : ℕ) :
    P j (update (update c.node i s') (i + 1) r' j) (update (update c.node i s') (i + 1) r' (j + 1))
      (update c.sent i sent' j) := by
  by_cases hji : j = i
  · subst hji
    simpa only [update_self, update_of_ne (Nat.ne_of_lt (Nat.lt_succ_self j))] using hlink
  by_cases hji' : j = i + 1
  · subst hji'
    have hne : i + 1 + 1 ≠ i := by omega
    simpa only [update_self, update_of_ne hne, update_of_ne hji,
      update_of_ne (Nat.succ_ne_self (i + 1))] using hafter
  have hsucc : j + 1 ≠ i + 1 := by omega
  simp only [update_of_ne hji, update_of_ne hji', update_of_ne hsucc]
  by_cases hbef : j + 1 = i
  · subst hbef
    simpa only [update_self] using hbefore j rfl
  · simpa only [update_of_ne hbef] using h j

lemma links_setNode {P : ℕ → Node → Node → List UInt8 → Prop}
    (h : ∀ j, P j (c.node j) (c.node (j + 1)) (c.sent j))
    (hlink : P i s' (c.node (i + 1)) (c.sent i))
    (hbefore : ∀ j, i = j + 1 → P j (c.node j) s' (c.sent j)) (j : ℕ) :
    P j ((c.setNode i s').node j) ((c.setNode i s').node (j + 1)) (c.sent j) := by
  have hall := links_update h hlink hbefore (h (i + 1)) j
  rwa [update_eq_self, update_comm (Nat.succ_ne_self i).symm, update_eq_self] at hall

def Chain.nextNode (c : Chain) (i : ℕ) : Node :=
  nodeStep (c.dataLine i) (c.clockLine i) (c.dataLine (i + 1)) (c.node i)

def Chain.nextReceiver (c : Chain) (i : ℕ) : Node :=
  if ((c.node i).downI.releases = true ∧ (c.nextNode i).downI.releases = false) ∧
      (c.node (i + 1)).irq = true then
    autoaddrRxCb (c.nextNode i).downO.releases (c.node (i + 1))
  else c.node (i + 1)

lemma run_eq (c : Chain) (i : ℕ) : c.run i =
    ⟨update (update c.node i (c.nextNode i)) (i + 1) (c.nextReceiver i),
      update c.sent i (LinkOk.sentAfter (c.node i) (c.sent i))⟩ := by
  have hne : i + 1 ≠ i := Nat.succ_ne_self i
  have hsent : (match (c.node i).pc with
      | .edge 7 _ _ => update c.sent i (c.sent i ++ [(c.node i).inst.autoAddr + 1])
      | _ => c.sent) = update c.sent i (LinkOk.sentAfter (c.node i) (c.sent i)) := by
    unfold LinkOk.sentAfter
    split
    · rfl
    · exact (update_eq_self i c.sent).symm
  have hkeep : update (update c.node i (c.nextNode i)) (i + 1) (c.node (i + 1)) =
      update c.node i (c.nextNode i) :=
    update_eq_iff.mpr ⟨(update_of_ne hne _ _).symm, fun _ _ => rfl⟩
  unfold Chain.run Chain.nextReceiver
  change (if (c.node i).downI.releases = true ∧ (c.nextNode i).downI.releases = false then
    Chain.interrupt ⟨update c.node i (c.nextNode i), _⟩ i else _) = _
  by_cases hfalls : (c.node i).downI.releases = true ∧ (c.nextNode i).downI.releases = false
  · by_cases hirq : (c.node (i + 1)).irq = true
    · simp only [if_pos hfalls, Chain.interrupt, update_of_ne hne, update_self,
        if_pos hirq, if_pos (And.intro hfalls hirq), Chain.setNode]
      exact congrArg (Chain.mk _) hsent
    · have hnot : ¬ (((c.node i).downI.releases = true ∧ (c.nextNode i).downI.releases = false) ∧
          (c.node (i + 1)).irq = true) := fun hboth => hirq hboth.2
      simp only [if_pos hfalls, Chain.interrupt, update_of_ne hne, if_neg hirq, if_neg hnot, hkeep]
      exact congrArg (Chain.mk _) hsent
  · have hnot : ¬ (((c.node i).downI.releases = true ∧ (c.nextNode i).downI.releases = false) ∧
        (c.node (i + 1)).irq = true) := fun hboth => hfalls hboth.1
    simp only [if_neg hfalls, if_neg hnot, hkeep]
    exact congrArg (Chain.mk _) hsent

lemma Inv.clockLine_up (h : Inv latch c) (hact : Undisturbed latch c (.run i))
    (hpc : (c.node i).pc = .upILow) (hi : i ≠ 0) : c.clockLine i = true := by
  obtain ⟨j, rfl⟩ := Nat.exists_eq_succ_of_ne_zero hi
  have hsamples : (c.node (j + 1)).samples = true := by
    unfold Node.samples
    rw [hpc]
  exact (h j).1.clock_up (hact.frames j rfl (.inr (.inl hsamples)))
    fun hlatch => hact.sample hlatch j rfl hsamples

/-- The thread of a node goes on. -/
lemma Inv.run (h : Inv latch c) (hact : Undisturbed latch c (.run i)) : Inv latch (c.run i) := by
  have hmove : Move (c.dataLine i) (c.clockLine i) (c.dataLine (i + 1)) (c.node i) (c.nextNode i) :=
    move_nodeStep _ _ _ _
  have hnode : NodeOk latch i (c.nextNode i) := by
    refine (h i).1.move hmove fun hpc hlow => ?_
    by_contra hi
    rw [h.clockLine_up hact hpc hi] at hlow
    cases hlow
  have hbefore : ∀ j, i = j + 1 → LinkOk latch (c.node j) (c.nextNode i) (c.sent j) := by
    rintro j rfl
    refine (h j).2.receiver_moves hmove (fun hpc => h.clockLine_up hact hpc (Nat.succ_ne_zero j)) ?_
    exact fun hr => hact.frames j rfl (hr.imp id .inr)
  rw [run_eq]
  unfold Chain.nextReceiver
  split
  case isTrue hbit =>
    obtain ⟨⟨hup, hdown⟩, hirq⟩ := hbit
    obtain ⟨hlink, hrecv⟩ := (h i).2.sender_falls (h i).1 (h (i + 1)).1 hmove hup hdown hirq
    -- a bit goes down in the middle of a frame, so no frame becomes complete
    have hsent : LinkOk.sentAfter (c.node i) (c.sent i) = c.sent i := by
      unfold LinkOk.sentAfter
      rcases LinkOk.falls_cases (h i).1 hmove hup hdown with ⟨hpc, -⟩ | ⟨k, temp, txBuf, hpc, -⟩ <;>
        simp only [hpc]
    rw [hsent]
    exact links_update (P := fun i s r sent => NodeOk latch i s ∧ LinkOk latch s r sent) h
      ⟨hnode, hlink⟩ (fun j hj => ⟨(h j).1, hbefore j hj⟩)
      ⟨hrecv, (h (i + 1)).2.sender_receives (received_autoaddrRxCb _ _)⟩
  case isFalse hbit =>
    refine links_update (P := fun i s r sent => NodeOk latch i s ∧ LinkOk latch s r sent) h
      ⟨hnode, (h i).2.sender_moves (h i).1 hmove ?_ ?_⟩
      (fun j hj => ⟨(h j).1, hbefore j hj⟩) (h (i + 1))
    · intro hirq hup
      by_contra hdown
      exact hbit ⟨⟨hup, Bool.eq_false_iff.mpr hdown⟩, hirq⟩
    · exact fun hirq hlatch hstarts => hact.begins hlatch i rfl hstarts hirq

lemma Inv.timer (h : Inv latch c) (i : ℕ) : Inv latch (c.setNode i (lastTimerCb (c.node i))) := by
  have hrec : Received (c.node i) (lastTimerCb (c.node i)) := ⟨rfl, rfl, rfl, rfl, rfl, rfl⟩
  refine links_setNode (P := fun i s r sent => NodeOk latch i s ∧ LinkOk latch s r sent) h
    ⟨(h i).1.receive hrec (h i).1.rxd (h i).1.rxd_lt, (h i).2.sender_receives hrec⟩ ?_
  rintro j rfl
  exact ⟨(h j).1, (h j).2.synced, (h j).2.rxd, (h j).2.accepted⟩

lemma inv_step (h : Inv latch c) (hact : Undisturbed latch c a) (hstep : step c a = some c') :
    Inv latch c' := by
  cases a with
  | run i =>
    obtain rfl := Option.some.inj hstep
    exact h.run hact
  | timer i =>
    simp only [step] at hstep
    split at hstep
    · obtain rfl := Option.some.inj hstep
      exact h.timer i
    · cases hstep

lemma inv_of_reach (h : Reach (Initial latch) step (Undisturbed latch) c) : Inv latch c :=
  h.invariant (fun _ => inv_of_initial) fun _ _ _ => inv_step

/-! ## Addresses -/

/-- Two nodes with the same address that is not zero are the same node. -/
def Distinct (c : Chain) : Prop :=
  ∀ i j, (c.node i).inst.autoAddr = (c.node j).inst.autoAddr → (c.node i).inst.autoAddr ≠ 0 → i = j

lemma Inv.distinct (h : Inv latch c) : Distinct c := by
  intro i j heq hne
  have hi := (h i).1.addr.resolve_left hne
  have hj := (h j).1.addr.resolve_left (heq ▸ hne)
  rw [heq, hj] at hi
  omega

def undisturbed (latch : Bool) (c : Chain) : Act → Bool
  | .timer _ => true
  | .run i =>
    (latch || !((c.node i).startsFrame && (c.node (i + 1)).irq) ||
      (c.node (i + 1)).inst.cnt == 0) &&
    match i with
    | 0 => true
    | j + 1 => (!((c.node (j + 1)).starts || (c.node (j + 1)).samples || (c.node (j + 1)).polls) ||
        !(c.node j).inFrame) &&
      (latch || !(c.node (j + 1)).samples || !(c.node j).startsUp)

lemma undisturbed_of_test (h : undisturbed latch c a = true) : Undisturbed latch c a := by
  cases a with
  | timer i => exact ⟨nofun, nofun, nofun⟩
  | run i =>
    simp only [undisturbed, Bool.and_eq_true] at h
    obtain ⟨hbegins, htest⟩ := h
    refine ⟨?_, ?_, ?_⟩
    · rintro j ⟨rfl⟩ hr
      cases hframe : (c.node j).inFrame <;> simp_all
    · rintro rfl j ⟨rfl⟩ hsamples
      simp_all
    · rintro rfl j ⟨rfl⟩ hstarts hirq
      simp_all

def framesIntact (c : Chain) : Act → Bool
  | .run (j + 1) =>
    !((c.node (j + 1)).starts || (c.node (j + 1)).samples || (c.node (j + 1)).polls) ||
      !(c.node j).inFrame
  | _ => true

lemma framesIntact_of_test (h : framesIntact c a = true) : FramesIntact c a := by
  rintro j rfl hr
  cases hframe : (c.node j).inFrame <;> simp_all [framesIntact]

def offChain (latch : Bool) : Chain := ⟨fun _ => offNode latch, fun _ => []⟩

lemma initial_offChain (latch : Bool) : Initial latch (offChain latch) :=
  ⟨fun _ => rfl, fun _ => rfl⟩

/-- The nodes 0 and 1 start, the node 0 sends a frame, and the node 1 takes its data as its address. -/
def oneFrame : List Act :=
  replicate 5 (.run 0) ++ replicate 7 (.run 1) ++ replicate 20 (.run 0) ++ [.run 1]

/-- In every state of a run of undisturbed steps, an address is zero or the position of the node, and
no two nodes have the same address. -/
theorem addr_eq_position_of_undisturbed (h : Reach (Initial latch) step (Undisturbed latch) c) :
    (∀ i, (c.node i).inst.autoAddr = 0 ∨ (c.node i).inst.autoAddr.toNat = i + 1) ∧ Distinct c :=
  ⟨fun i => (inv_of_reach h i).1.addr, (inv_of_reach h).distinct⟩

/-- The first two nodes have the addresses 1 and 2. -/
theorem addr_eq_position_after_frame : ∃ c : Chain,
    (c.node 0).inst.autoAddr = 1 ∧ (c.node 1).inst.autoAddr = 2 ∧
      (∀ i, (c.node i).inst.autoAddr = 0 ∨ (c.node i).inst.autoAddr.toNat = i + 1) ∧
      Distinct c := by
  obtain ⟨c, hreach, hfirst, hsecond⟩ : ∃ c, Reach (Initial false) step
      (Undisturbed false) c ∧ (c.node 0).inst.autoAddr = 1 ∧ (c.node 1).inst.autoAddr = 2 :=
    exists_of_run (fun _ _ => undisturbed_of_test) (initial_offChain false) oneFrame
      (by decide +kernel)
  exact ⟨c, hfirst, hsecond, addr_eq_position_of_undisturbed hreach⟩

/-- The node 1 samples its lines while the node 0 starts up: the pins of the node 0 are outputs, and
their latches are still low. No frame was ever sent. -/
theorem second_takes_one_at_startup : ∃ c : Chain, Reach (Initial false) step FramesIntact c ∧
      ¬ ((∀ i, (c.node i).inst.autoAddr = 0 ∨ (c.node i).inst.autoAddr.toNat = i + 1) ∧
        Distinct c) := by
  obtain ⟨c, hreach, hone⟩ : ∃ c, Reach (Initial false) step FramesIntact c ∧
      (c.node 1).inst.autoAddr = 1 :=
    exists_of_run (fun _ _ => framesIntact_of_test) (initial_offChain false)
      (replicate 6 (.run 1) ++ replicate 2 (.run 0) ++ replicate 2 (.run 1))
      (by decide +kernel)
  refine ⟨c, hreach, fun hall => ?_⟩
  have hnode := hall.1 1
  rw [hone] at hnode
  exact absurd hnode (by decide)

/-- What the addresses of a chain have to be. -/
structure SoundAddrs (c : Chain) : Prop where
  distinct : Distinct c
  /-- Only the first node takes the address 1. -/
  first : ∀ i, (c.node i).inst.autoAddr = 1 → i = 0
  /-- The address of any other node is the data of a complete frame of the node before it. -/
  complete : ∀ i, (c.node (i + 1)).inst.autoAddr ≠ 0 →
    (c.node (i + 1)).inst.autoAddr ∈ c.sent i

/-- The addresses are sound in every state of a run of undisturbed steps. -/
theorem soundAddrs_of_undisturbed
    (h : Reach (Initial latch) step (Undisturbed latch) c) : SoundAddrs c := by
  have hinv := inv_of_reach h
  refine ⟨hinv.distinct, fun i hone => ?_, fun i hne => (hinv i).2.accepted.resolve_left hne⟩
  have hpos := (hinv i).1.addr.resolve_left (by rw [hone]; decide)
  rw [hone, UInt8.toNat_one] at hpos
  omega

/-- The node 1 has its address from the frame of the node 0. -/
theorem soundAddrs_after_frame : ∃ c : Chain,
    (c.node 1).inst.autoAddr = 2 ∧ c.sent 0 = [2] ∧ SoundAddrs c := by
  obtain ⟨c, hreach, haddr, hsent⟩ : ∃ c, Reach (Initial true) step
      (Undisturbed true) c ∧ (c.node 1).inst.autoAddr = 2 ∧ c.sent 0 = [2] :=
    exists_of_run (fun _ _ => undisturbed_of_test) (initial_offChain true) oneFrame
      (by decide +kernel)
  exact ⟨c, haddr, hsent, soundAddrs_of_undisturbed hreach⟩

/-- The node 1 samples its lines in the first bit of a frame: both are low, and it takes the address
of the node 0. The latches are high from the start here. -/
theorem two_take_one_in_frame : ∃ c : Chain,
    Reach (Initial true) step (fun _ _ => True) c ∧ ¬ SoundAddrs c := by
  obtain ⟨c, hreach, hzero, hone⟩ : ∃ c, Reach (Initial true) step (fun _ _ => True) c ∧
      (c.node 0).inst.autoAddr = 1 ∧ (c.node 1).inst.autoAddr = 1 :=
    exists_of_free_run (initial_offChain true)
      (replicate 6 (.run 1) ++ replicate 10 (.run 0) ++ replicate 2 (.run 1))
      (by decide +kernel)
  refine ⟨c, hreach, fun hsound => ?_⟩
  have heq := hsound.distinct 0 1 (hzero.trans hone.symm) (by rw [hzero]; decide)
  cases heq

end AutoAddr

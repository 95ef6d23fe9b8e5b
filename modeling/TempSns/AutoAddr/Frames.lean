import TempSns.AutoAddr.Defs

/-!
# Frames

The shift register of a receiver. After `k` bits of a frame its low `k` bits are the first `k` bits of
the frame, whatever it held before; after eight bits it is the frame, and `rxd` is the data modulo 64.
-/

namespace AutoAddr

def shiftIn (bit : Bool) (sr : UInt8) : UInt8 := if bit = false then sr <<< 1 else (sr <<< 1) + 1

lemma toNat_shiftIn (bit : Bool) (sr : UInt8) :
    (shiftIn bit sr).toNat = (2 * sr.toNat + bit.toNat) % 2 ^ 8 := by
  have hshift : (sr <<< 1).toNat = 2 * sr.toNat % 2 ^ 8 := by
    rw [UInt8.toNat_shiftLeft]
    simp [Nat.shiftLeft_eq, Nat.mul_comm]
  cases bit with
  | false =>
    simp only [shiftIn, if_true, hshift, Bool.toNat_false, Nat.add_zero]
  | true =>
    have hone : (1 : UInt8).toNat = 1 := rfl
    simp only [shiftIn, Bool.true_eq_false, if_false, UInt8.toNat_add, hshift, hone,
      Bool.toNat_true]
    omega

/-- The low `k` bits of the register are the first `k` bits of the frame. -/
def Holds (temp sr : UInt8) (k : ℕ) : Prop := sr.toNat % 2 ^ k = temp.toNat / 2 ^ (8 - k)

lemma holds_zero (temp sr : UInt8) : Holds temp sr 0 := by
  have hlt := temp.toNat_lt
  simp only [Holds]
  omega

lemma Holds.shiftIn {temp sr : UInt8} {k : ℕ} (h : Holds temp sr k) (hk : k < 8) :
    Holds temp (shiftIn (frameBit temp k) sr) (k + 1) := by
  have hbit : (frameBit temp k).toNat = temp.toNat / 2 ^ (7 - k) % 2 := by
    rw [frameBit, Nat.toNat_testBit]
  unfold Holds at h ⊢
  rw [toNat_shiftIn, hbit]
  interval_cases k <;> norm_num at h ⊢ <;> omega

lemma Holds.eq_frame {temp sr : UInt8} (h : Holds temp sr 8) : sr = temp := by
  have hsr := sr.toNat_lt
  apply UInt8.toNat_inj.mp
  simp only [Holds] at h
  omega

lemma toNat_frame_shiftRight (data : UInt8) : (frame data >>> 2).toNat = data.toNat % 64 := by
  have hor : (frame data).toNat = 4 * data.toNat % 2 ^ 8 ||| 3 := by
    rw [frame, UInt8.toNat_or, UInt8.toNat_shiftLeft]
    simp [Nat.shiftLeft_eq, Nat.mul_comm]
  have hadd : 4 * data.toNat % 2 ^ 8 ||| 3 = 4 * data.toNat % 2 ^ 8 + 3 := by
    have hmul : 4 * data.toNat % 2 ^ 8 = (data.toNat % 64) <<< 2 := by
      rw [Nat.shiftLeft_eq]
      omega
    rw [hmul, ← Nat.shiftLeft_add_eq_or_of_lt (by norm_num : 3 < 2 ^ 2)]
  rw [UInt8.toNat_shiftRight, hor, hadd]
  simp [Nat.shiftRight_eq_div_pow]
  omega

/-! ## Interrupt handler -/

variable {nd : Node} (bit : Bool)

/-- The handler changes the register, the counter, the received data and `UP_I` only. -/
structure Received (nd nd' : Node) : Prop where
  downI : nd'.downI = nd.downI
  downO : nd'.downO = nd.downO
  irq : nd'.irq = nd.irq
  pc : nd'.pc = nd.pc
  fsm : nd'.inst.fsm = nd.inst.fsm
  autoAddr : nd'.inst.autoAddr = nd.inst.autoAddr

lemma received_autoaddrRxCb (bit : Bool) (nd : Node) : Received nd (autoaddrRxCb bit nd) := by
  unfold autoaddrRxCb
  simp only
  split
  · exact ⟨rfl, rfl, rfl, rfl, rfl, rfl⟩
  · split <;> exact ⟨rfl, rfl, rfl, rfl, rfl, rfl⟩

/-- The input `UP_I` does not change the level of the data line. -/
lemma level_eq (bit : Bool) (p : Pin) : (bit && (rtPinMode p .input).releases) = bit := by
  simp [rtPinMode, Pin.releases]

lemma autoaddrRxCb_of_lt {k : ℕ} (hcnt : nd.inst.cnt.toNat = k) (hk : k < 7) :
    (autoaddrRxCb bit nd).inst.cnt.toNat = k + 1 ∧
      (autoaddrRxCb bit nd).inst.sr = shiftIn bit nd.inst.sr ∧
      (autoaddrRxCb bit nd).inst.rxd = nd.inst.rxd := by
  have hadd : (nd.inst.cnt + 1).toNat = k + 1 := by
    rw [UInt8.toNat_add, hcnt]
    exact Nat.mod_eq_of_lt (by simp; omega)
  have hlt : ¬ nd.inst.cnt + 1 ≥ 8 := by
    rw [ge_iff_le, UInt8.le_iff_toNat_le, hadd]
    simp
    omega
  unfold autoaddrRxCb
  simp only [level_eq, if_neg hlt]
  split <;> exact ⟨hadd, rfl, rfl⟩

lemma autoaddrRxCb_of_seven (hcnt : nd.inst.cnt.toNat = 7) : (autoaddrRxCb bit nd).inst.cnt = 0 ∧
      (autoaddrRxCb bit nd).inst.rxd = shiftIn bit nd.inst.sr >>> 2 := by
  have heq : nd.inst.cnt = 7 := UInt8.toNat_inj.mp hcnt
  unfold autoaddrRxCb
  simp only [level_eq, heq]
  exact ⟨rfl, rfl⟩

end AutoAddr

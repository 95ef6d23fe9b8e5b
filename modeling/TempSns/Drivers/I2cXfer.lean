import TempSns.Drivers.I2cBit

/-!
# The waveform of an I2C transfer

What a transfer of plain messages puts on the lines, said with frames: an address is sent until it is
acknowledged, at most `bus->retries` more times, and each further attempt follows a stop and a start; the
bytes of a message are sent until one of them is not acknowledged, or received and acknowledged all but
the last one; messages are separated by repeated starts, and a stop ends the transfer.

The trace of `i2c_bit_xfer` decodes to such a transfer, with the answers of the slave, whenever
`bus->retries` is below 2^31. A larger number is negative in the variable `retries` of
`i2c_bit_send_address`, and no address is sent.
-/

namespace Drivers

open TwoWire List

/-! ## Transfers -/

/-- The frames of an address that may be tried `retries` more times, and whether it was acknowledged. -/
inductive AddressPhase (addr : UInt8) : ℕ → List Frame → Bool → Prop
  | acked {retries} : AddressPhase addr retries [.send addr true] true
  | refused : AddressPhase addr 0 [.send addr false] false
  | again {retries fs ok} (h : AddressPhase addr retries fs ok) :
    AddressPhase addr (retries + 1) (.send addr false :: .stop :: .start :: fs) ok

/-- The frames of written bytes, and whether all of them were acknowledged. -/
inductive WritePhase : List UInt8 → List Frame → Bool → Prop
  | done : WritePhase [] [] true
  | acked {b bs fs ok} (h : WritePhase bs fs ok) : WritePhase (b :: bs) (.send b true :: fs) ok
  | refused {b bs} : WritePhase (b :: bs) [.send b false] false

/-- The frames of a number of received bytes, and the bytes. All but the last one are acknowledged. -/
inductive ReadPhase : ℕ → List Frame → List UInt8 → Prop
  | done : ReadPhase 0 [] []
  | byte {n b fs bs} (h : ReadPhase n fs bs) :
    ReadPhase (n + 1) (.receive b (n != 0) :: fs) (b :: bs)

def addressByte (m : I2cMsg) : UInt8 :=
  .ofNat (2 * m.addr.toNat + if m.flags = rtI2cRd then 1 else 0)

/-- The frames of the data of a message, its buffer after it, and whether the slave acknowledged all
it had to. -/
inductive DataPhase (m : I2cMsg) : List Frame → List UInt8 → Bool → Prop
  | read {fs buf} (hrd : m.flags = rtI2cRd) (h : ReadPhase m.buf.length fs buf) :
    DataPhase m fs buf true
  | write {fs ok} (hwr : m.flags = rtI2cWr) (h : WritePhase m.buf fs ok) : DataPhase m fs m.buf ok

/-- The same for the address and the data of a message. -/
inductive MessagePhase (retries : ℕ) (m : I2cMsg) : List Frame → List UInt8 → Bool → Prop
  | refused {fs} (ha : AddressPhase (addressByte m) retries fs false) :
    MessagePhase retries m fs m.buf false
  | sent {fs gs buf ok} (ha : AddressPhase (addressByte m) retries fs true)
    (hd : DataPhase m gs buf ok) : MessagePhase retries m (fs ++ gs) buf ok

def repeatedStart (i : ℕ) : List Frame := if i = 0 then [] else [.start]

/-- The frames of the messages from number `i` on, their buffers after the transfer, and whether the slave
acknowledged all it had to. The transfer ends with the first message for which it did not. -/
inductive Messages (retries : ℕ) :
    ℕ → List I2cMsg → List Frame → List (List UInt8) → Bool → Prop
  | done {i} : Messages retries i [] [] [] true
  | failed {i m ms fs buf} (hm : MessagePhase retries m fs buf false) :
    Messages retries i (m :: ms) (repeatedStart i ++ fs) (buf :: ms.map I2cMsg.buf) false
  | next {i m ms fs gs buf bufs ok} (hm : MessagePhase retries m fs buf true)
    (hms : Messages retries (i + 1) ms gs bufs ok) :
    Messages retries i (m :: ms) (repeatedStart i ++ fs ++ gs) (buf :: bufs) ok

/-- An array of plain messages. A message takes 12 bytes of a 32-bit address space. -/
structure PlainMsgs where
  msgs : List I2cMsg
  plain : ∀ m ∈ msgs, m.Plain
  fits : msgs.length * 12 ≤ 2 ^ 32

/-- On an idle bus, the trace of `i2c_bit_xfer` decodes to a transfer of the messages and leaves the bus
idle, the buffers of the messages hold what that transfer stores, and the result is the number of
messages just if the slave acknowledged all it had to. -/
def XferOk (bus : I2cBus) (slave : I2cSlave) (msgs : List I2cMsg) : Prop :=
  ∃ fs ok, Messages bus.retries.toNat 0 msgs fs (i2cBitXfer bus slave msgs []).2.1 ok ∧
    Idle (i2cBitXfer bus slave msgs []).2.2 (symbols (.start :: fs ++ [.stop])) ∧
    ((i2cBitXfer bus slave msgs []).1 = msgs.length ↔ ok = true)

/-- The slave does not stretch the clock beyond the timeout. -/
def I2cSlave.InTime (slave : I2cSlave) (bus : I2cBus) : Prop :=
  ∀ t, slave.stretch t ≤ bus.timeout.toNat

/-! ## Bits and bytes -/

lemma waitScl_of_le {timeout : UInt32} {stretch : ℕ} (h : stretch ≤ timeout.toNat) (elapsed : ℕ) :
    waitScl timeout stretch elapsed = true := by
  fun_induction waitScl timeout stretch elapsed with
  | case1 => rfl
  | case2 elapsed hlt htimeout =>
    -- a timeout is seen only after the slave has let go of the clock
    have := Nat.mod_le elapsed (2 ^ 32)
    omega
  | case3 elapsed hlt htimeout ih => exact ih

variable {bus : I2cBus} {slave : I2cSlave} {t : Trace} {s : Bool} {out : List Symbol}
  {fs : List Frame} {ms : List I2cMsg} {ok : Bool} {buf : List UInt8} {n : ℕ}

lemma sclH_eq (hs : slave.InTime bus) (t : Trace) : sclH bus slave t = (true, t ++ [.scl true]) := by
  rw [sclH, waitScl_of_le (hs _), Bool.or_true]

lemma i2cStart_low (h : Idle t out) : Low (i2cStart t) false (out ++ [.start]) := h.start

section

variable (hs : slave.InTime bus)

include hs

lemma i2cRestart_low (h : Low t s out) :
    Low (i2cRestart bus slave t) false (out ++ [.start]) := by
  rw [i2cRestart, sclH_eq hs]
  exact (h.sda true).restart

lemma i2cStop_idle (h : Low t s out) : Idle (i2cStop bus slave t) (out ++ [.stop]) := by
  rw [i2cStop, sclH_eq hs]
  exact (h.sda false).stop

lemma i2cWaitack_low (h : Low t s out) :
    ∃ ack t', i2cWaitack bus slave t = (if ack then 1 else 0, t') ∧
      Low t' true (out ++ [.bit !ack]) := by
  rw [i2cWaitack, sclH_eq hs]
  have hbit := (h.sda true).sample (slave.sda (t ++ [.sda true] ++ [.scl true]))
  -- the slave acknowledges with a low data line
  refine ⟨!slave.sda (t ++ [.sda true] ++ [.scl true]), _, ?_, by rwa [Bool.not_not]⟩
  dsimp only
  cases slave.sda (t ++ [.sda true] ++ [.scl true]) <;> rfl

lemma i2cWriteBits_settled (data : UInt8) (n : ℕ) (h : Settled t out) :
    ∃ t', i2cWriteBits bus slave data n t = (true, t') ∧
      Settled t' (out ++ (lowBits data n).map .bit) := by
  induction n generalizing t out with
  | zero => exact ⟨t, rfl, by rwa [lowBits, map_nil, append_nil]⟩
  | succ n ih =>
    obtain ⟨s, hlow⟩ := h
    have hbit := (hlow.sda (data.toNat.testBit n)).send
    obtain ⟨t', heq, hout⟩ := ih ⟨_, hbit⟩
    refine ⟨t', ?_, ?_⟩
    · rw [i2cWriteBits, sclH_eq hs, ← heq]
      simp only [append_assoc, cons_append, nil_append]
    · rw [lowBits, map_cons]
      rwa [append_assoc] at hout

lemma i2cWriteb_low (data : UInt8) (h : Low t s out) :
    ∃ ack t', i2cWriteb bus slave data t = (if ack then 1 else 0, t') ∧
      Low t' true (out ++ (Frame.send data ack).symbols) := by
  obtain ⟨t₁, hbits, s₁, hlow⟩ := i2cWriteBits_settled hs data 8 h.settled
  obtain ⟨ack, t', hack, hout⟩ := i2cWaitack_low hs hlow
  refine ⟨ack, t', ?_, ?_⟩
  · rw [i2cWriteb, hbits, ← hack]
  · rwa [Frame.symbols, ← append_assoc]

lemma i2cReadBits_low (n : ℕ) (data : UInt8) (h : Low t true out) :
    ∃ (l : List Bool) (t' : Trace), l.length = n ∧
      i2cReadBits bus slave n data t = (some (l.foldl shiftIn data), t') ∧
      Low t' true (out ++ l.map .bit) := by
  induction n generalizing t out data with
  | zero => exact ⟨[], t, rfl, rfl, by rwa [map_nil, append_nil]⟩
  | succ n ih =>
    obtain ⟨l, t', hlen, heq, hout⟩ :=
      ih (shiftIn data (slave.sda (t ++ [.scl true]))) (h.sample (slave.sda (t ++ [.scl true])))
    refine ⟨slave.sda (t ++ [.scl true]) :: l, t', by rw [length_cons, hlen], ?_, ?_⟩
    · rw [i2cReadBits, sclH_eq hs, foldl_cons, ← heq]
    · rwa [append_assoc] at hout

lemma i2cReadb_low (h : Low t s out) : ∃ b t', i2cReadb bus slave t = (some b, t') ∧
      Low t' true (out ++ (lowBits b 8).map .bit) := by
  obtain ⟨l, t', hlen, heq, hout⟩ := i2cReadBits_low hs 8 0 (h.sda true)
  refine ⟨_, t', heq, ?_⟩
  rwa [lowBits_foldl_shiftIn hlen]

lemma i2cSendAckOrNack_low (ack : Bool) (h : Low t true out) :
    ∃ s t', i2cSendAckOrNack bus slave ack t = (true, t') ∧ Low t' s (out ++ [.bit !ack]) := by
  rw [i2cSendAckOrNack, sclH_eq hs]
  cases ack with
  | true => exact ⟨_, _, rfl, (h.sda false).send⟩
  | false => exact ⟨_, _, rfl, h.send⟩

/-! ## Addresses and data -/

lemma i2cAddressLoop_phase (addr : UInt8) (n : ℕ) (h : Low t s out) :
    ∃ fs ok t' s', i2cAddressLoop bus slave addr n t = (if ok then 1 else 0, t') ∧
      AddressPhase addr n fs ok ∧ Low t' s' (out ++ symbols fs) := by
  induction n generalizing t s out with
  | zero =>
    obtain ⟨ack, t', heq, hout⟩ := i2cWriteb_low hs addr h
    refine ⟨[.send addr ack], ack, t', true, heq, ?_, by simpa using hout⟩
    cases ack with
    | true => exact .acked
    | false => exact .refused
  | succ n ih =>
    obtain ⟨ack, t₁, heq, hout⟩ := i2cWriteb_low hs addr h
    cases ack with
    | true =>
      refine ⟨[.send addr true], true, t₁, true, ?_, .acked, by simpa using hout⟩
      rw [i2cAddressLoop, heq]
      rfl
    | false =>
      -- a refused address is sent again after a stop and a start
      obtain ⟨fs, ok, t', s', heq', hphase, hout'⟩ := ih (i2cStart_low (i2cStop_idle hs hout))
      refine ⟨_, ok, t', s', ?_, .again hphase, ?_⟩
      · rw [i2cAddressLoop, heq, ← heq']
        rfl
      · simpa [Frame.symbols] using hout'

lemma i2cSendBytes_phase (bytes : ℤ) (buf : List UInt8) (h : Low t s out) :
    ∃ fs ok t' s', i2cSendBytes bus slave false bytes buf t =
        (if ok then bytes + buf.length else 0, t') ∧
      WritePhase buf fs ok ∧ Low t' s' (out ++ symbols fs) := by
  induction buf generalizing t s out bytes with
  | nil => exact ⟨[], true, t, s, by simp [i2cSendBytes], .done, by simpa using h⟩
  | cons b bs ih =>
    obtain ⟨ack, t₁, heq, hout⟩ := i2cWriteb_low hs b h
    cases ack with
    | true =>
      obtain ⟨fs, ok, t', s', heq', hphase, hout'⟩ := ih (bytes + 1) hout
      refine ⟨_, ok, t', s', ?_, .acked hphase, by simpa using hout'⟩
      rw [i2cSendBytes, heq]
      simp only [if_true, gt_iff_lt, Int.zero_lt_one, true_or, heq', length_cons,
        Nat.cast_add, Nat.cast_one, add_assoc, add_comm (1 : ℤ)]
    | false =>
      refine ⟨_, false, t₁, true, ?_, .refused, by simpa using hout⟩
      rw [i2cSendBytes, heq]
      rfl

lemma i2cRecvBytes_phase (bytes : ℤ) (buf : List UInt8) (h : Low t s out) :
    ∃ fs bs t' s', i2cRecvBytes bus slave false bytes buf t = (bytes + buf.length, bs, t') ∧
      ReadPhase buf.length fs bs ∧ Low t' s' (out ++ symbols fs) := by
  induction buf generalizing t s out bytes with
  | nil => exact ⟨[], [], t, s, by simp [i2cRecvBytes], .done, by simpa using h⟩
  | cons b bs ih =>
    obtain ⟨val, t₁, heq, hout⟩ := i2cReadb_low hs h
    obtain ⟨s₂, t₂, hack, hout₂⟩ := i2cSendAckOrNack_low hs (bs.length != 0) hout
    obtain ⟨fs, bs', t', s', heq', hphase, hout'⟩ := ih (bytes + 1) hout₂
    refine ⟨_, _, t', s', ?_, .byte hphase, by simpa [Frame.symbols] using hout'⟩
    rw [i2cRecvBytes, heq]
    simp only [Bool.false_eq_true, if_false, hack, heq', length_cons, Nat.cast_add,
      Nat.cast_one, add_assoc, add_comm (1 : ℤ)]

end

/-! ## Messages -/

section Message

variable {m : I2cMsg}

lemma I2cMsg.Plain.has_eq (h : m.Plain) (flag : UInt16) (hflag : flag &&& 1 = 0) :
    m.has flag = false := by
  rw [I2cMsg.has]
  rcases h.1 with hf | hf
  · simp [hf, rtI2cWr]
  · rw [hf, rtI2cRd, UInt16.and_comm, hflag]
    rfl

/-- The address byte with a 7-bit address, as the source computes it. -/
lemma shiftLeft_addr (k : Fin 128) : (UInt16.ofNat k <<< 1).toUInt8 = UInt8.ofNat (2 * k) ∧
      (UInt16.ofNat k <<< 1).toUInt8 ||| 1 = UInt8.ofNat (2 * k + 1) := by
  revert k
  decide +kernel

lemma I2cMsg.Plain.i2cAddr7_eq (h : m.Plain) : i2cAddr7 m = addressByte m := by
  have haddr := shiftLeft_addr ⟨m.addr.toNat, h.2⟩
  rw [UInt16.ofNat_toNat] at haddr
  rw [i2cAddr7, addressByte, I2cMsg.has]
  rcases h.1 with hf | hf
  · rw [hf]
    exact haddr.1
  · rw [hf]
    exact haddr.2

lemma toInt_retries (h : bus.retries.toNat < 2 ^ 31) :
    bus.retries.toInt32.toInt = bus.retries.toNat := by
  change bus.retries.toBitVec.toInt = _
  rw [BitVec.toInt_eq_toNat_cond, if_pos (by simpa using by omega)]
  rfl

lemma toInt_retries_neg (h : 2 ^ 31 ≤ bus.retries.toNat) : bus.retries.toInt32.toInt < 0 := by
  have hlt := bus.retries.toNat_lt
  change bus.retries.toBitVec.toInt < 0
  rw [BitVec.toInt_eq_toNat_cond, if_neg (by simpa using by omega)]
  simp only [UInt32.toNat_toBitVec]
  omega

lemma I2cMsg.Plain.i2cBitSendAddress_eq (hm : m.Plain) (t : Trace) :
    i2cBitSendAddress bus slave m t =
      let r := i2cSendAddress bus slave (addressByte m) bus.retries.toInt32.toInt t
      (if r.1 = 1 then 0 else rtEio, r.2) := by
  rw [i2cBitSendAddress, hm.has_eq rtI2cIgnoreNack rfl,
    hm.has_eq rtI2cAddr10bit rfl, hm.i2cAddr7_eq]
  simp only [Bool.false_eq_true, if_false, and_true]
  by_cases hret : (i2cSendAddress bus slave (addressByte m) bus.retries.toInt32.toInt t).1 = 1
  · rw [if_neg (not_not.mpr hret), if_pos hret]
  · rw [if_pos hret, if_neg hret]

lemma I2cMsg.Plain.i2cXferAddress_eq (hm : m.Plain) (i : ℕ) (t : Trace) :
    i2cXferAddress bus slave i m t =
      i2cBitSendAddress bus slave m (if i ≠ 0 then i2cRestart bus slave t else t) := by
  rw [i2cXferAddress, hm.has_eq rtI2cNoStart rfl]
  rfl

lemma i2cXferAddress_phase (hs : slave.InTime bus) (hr : bus.retries.toNat < 2 ^ 31) (hm : m.Plain)
    (i : ℕ) (h : Low t s out) :
    ∃ fs ok t' s', i2cXferAddress bus slave i m t = (if ok then 0 else rtEio, t') ∧
      AddressPhase (addressByte m) bus.retries.toNat fs ok ∧
      Low t' s' (out ++ symbols (repeatedStart i ++ fs)) := by
  -- the clock is low before the address, after a repeated start if this is not the first message
  have hlow : ∃ s', Low (if i ≠ 0 then i2cRestart bus slave t else t) s'
      (out ++ symbols (repeatedStart i)) := by
    by_cases hi : i = 0
    · exact ⟨s, by simpa [hi, repeatedStart] using h⟩
    · exact ⟨false, by simpa [hi, repeatedStart, Frame.symbols] using i2cRestart_low hs h⟩
  obtain ⟨s₁, hlow⟩ := hlow
  obtain ⟨fs, ok, t', s', heq, hphase, hout⟩ :=
    i2cAddressLoop_phase hs (addressByte m) bus.retries.toNat hlow
  refine ⟨fs, ok, t', s', ?_, hphase, ?_⟩
  · rw [hm.i2cXferAddress_eq, hm.i2cBitSendAddress_eq, i2cSendAddress, toInt_retries hr,
      if_neg (Int.natCast_nonneg _).not_gt, Int.toNat_natCast, heq]
    cases ok <;> rfl
  · rwa [symbols_append, ← append_assoc]

lemma i2cXferData_phase (hs : slave.InTime bus) (hm : m.Plain) (h : Low t s out) :
    ∃ fs buf ok t' s', i2cXferData bus slave m t = (if ok then (m.buf.length : ℤ) else 0, buf, t') ∧
      DataPhase m fs buf ok ∧ Low t' s' (out ++ symbols fs) := by
  rw [i2cXferData]
  rcases hm.1 with hf | hf
  · obtain ⟨fs, ok, t', s', heq, hphase, hout⟩ := i2cSendBytes_phase hs 0 m.buf h
    refine ⟨fs, m.buf, ok, t', s', ?_, .write hf hphase, hout⟩
    have hwr : m.has rtI2cRd = false := by rw [I2cMsg.has, hf]; rfl
    rw [hwr, hm.has_eq rtI2cIgnoreNack rfl, heq, zero_add]
    rfl
  · obtain ⟨fs, buf, t', s', heq, hphase, hout⟩ := i2cRecvBytes_phase hs 0 m.buf h
    refine ⟨fs, buf, true, t', s', ?_, .read hf hphase, hout⟩
    have hrd : m.has rtI2cRd = true := by rw [I2cMsg.has, hf]; rfl
    rw [hrd, hm.has_eq rtI2cNoReadAck rfl, if_pos rfl, heq, zero_add]
    rfl

/-- The slave can refuse data only if there is some. -/
lemma DataPhase.length_pos (h : DataPhase m fs buf false) : 0 < m.buf.length := by
  obtain _ | ⟨_, hw⟩ := h
  cases hb : m.buf with
  | nil =>
    rw [hb] at hw
    nomatch hw
  | cons b bs => exact Nat.succ_pos _

end Message

lemma i2cXferLoop_messages (hs : slave.InTime bus) (hr : bus.retries.toNat < 2 ^ 31) (i : ℕ)
    (hms : ∀ m ∈ ms, m.Plain) (h : Low t s out) :
    ∃ fs ok t' s' bufs ret, i2cXferLoop bus slave i ms t = (ret, bufs, t') ∧
      Messages bus.retries.toNat i ms fs bufs ok ∧ Low t' s' (out ++ symbols fs) ∧
      if ok then ret = i + ms.length else ret = rtError ∨ ret = rtEio := by
  induction ms generalizing i t s out with
  | nil => exact ⟨[], true, t, s, [], i, rfl, .done, by simpa using h, by simp⟩
  | cons m ms ih =>
    have hm := hms m (mem_cons_self ..)
    have hnack := hm.has_eq rtI2cIgnoreNack rfl
    obtain ⟨fs, ok, t₁, s₁, haddr, hphase, hout⟩ := i2cXferAddress_phase hs hr hm i h
    rw [i2cXferLoop, haddr]
    cases ok with
    | false =>
      refine ⟨_, false, t₁, s₁, _, rtEio, ?_, .failed (.refused hphase), hout, Or.inr rfl⟩
      simp [hnack, rtEio]
    | true =>
      obtain ⟨gs, buf, ok, t₂, s₂, hdata, hphase', hout'⟩ := i2cXferData_phase hs hm hout
      rw [append_assoc, ← symbols_append, append_assoc] at hout'
      simp only [if_true, ne_eq, not_true, false_and, if_false, hdata]
      cases ok with
      | false =>
        -- the slave refused a byte
        refine ⟨_, false, t₂, s₂, _, i2cShort m 0, ?_, .failed (.sent hphase hphase'), hout', ?_⟩
        · simp [hphase'.length_pos]
        · rw [i2cShort]
          cases m.has rtI2cRd
          · exact Or.inl rfl
          · exact Or.inr rfl
      | true =>
        obtain ⟨fs', ok, t', s', bufs, ret, heq, hrest, hout, hret⟩ :=
          ih (i + 1) (fun m' hm' => hms m' (mem_cons_of_mem _ hm')) hout'
        refine ⟨_, ok, t', s', _, ret, ?_, .next (.sent hphase hphase') hrest, ?_, ?_⟩
        · simp [heq]
        · simpa using hout
        · cases ok with
          | true =>
            simp only [if_true, length_cons] at hret ⊢
            omega
          | false => exact hret

/-! ## Transfer -/

section Transfer

variable {msgs : PlainMsgs}

/-- The transfer with a number of retries that fits the type `rt_int32_t`. -/
lemma xferOk_of_lt (hs : slave.InTime bus) (hr : bus.retries.toNat < 2 ^ 31) :
    XferOk bus slave msgs.msgs := by
  obtain ⟨fs, ok, t', s', bufs, ret, heq, hmessages, hout, hret⟩ :=
    i2cXferLoop_messages hs hr 0 msgs.plain (i2cStart_low idle_nil)
  have hxfer : i2cBitXfer bus slave msgs.msgs [] =
      ((ret % 2 ^ 32).toNat, bufs, i2cStop bus slave t') := by
    rw [i2cBitXfer, heq]
  have hfits := msgs.fits
  refine ⟨fs, ok, by rwa [hxfer], ?_, ?_⟩
  · rw [hxfer]
    simpa [Frame.symbols] using i2cStop_idle hs hout
  · rw [hxfer]
    cases ok with
    | true =>
      simp only [if_true] at hret
      simp only [iff_true]
      omega
    | false =>
      -- an error is a huge number of type `rt_size_t`
      have hret : ret = -1 ∨ ret = -8 := hret
      simp only [Bool.false_eq_true, iff_false]
      omega

lemma xferOk_nil (hs : slave.InTime bus) : XferOk bus slave [] := by
  have hstop := i2cStop_idle hs (i2cStart_low idle_nil)
  exact ⟨[], true, .done, hstop, by simp [i2cBitXfer, i2cXferLoop]⟩

/-- An address is sent before anything else. -/
lemma AddressPhase.symbols_eq {addr : UInt8}
    (h : AddressPhase addr n fs ok) : ∃ b l, symbols fs = .bit b :: l := by
  cases h <;> exact ⟨_, _, rfl⟩

lemma MessagePhase.symbols_eq {m : I2cMsg}
    (h : MessagePhase n m fs buf ok) : ∃ b l, symbols fs = .bit b :: l := by
  cases h with
  | refused ha => exact ha.symbols_eq
  | sent ha hd =>
    obtain ⟨b, l, hl⟩ := ha.symbols_eq
    exact ⟨b, _, by rw [symbols_append, hl, cons_append]⟩

lemma Messages.symbols_eq {m : I2cMsg}
    {bufs : List (List UInt8)} (h : Messages n 0 (m :: ms) fs bufs ok) :
    ∃ b l, symbols fs = .bit b :: l := by
  cases h with
  | failed hm => exact hm.symbols_eq
  | next hm hms =>
    obtain ⟨b, l, hl⟩ := hm.symbols_eq
    exact ⟨b, _, by rw [symbols_append, symbols_append, hl]; rfl⟩

/-- With a number of retries that is negative as an `rt_int32_t` no address is sent. -/
lemma trace_of_le {m : I2cMsg} (hm : m.Plain) (hr : 2 ^ 31 ≤ bus.retries.toNat) :
    (i2cBitXfer bus slave (m :: ms) []).2.2 = i2cStop bus slave (i2cStart []) := by
  have haddr (t : Trace) : i2cXferAddress bus slave 0 m t = (rtEio, t) := by
    rw [hm.i2cXferAddress_eq, hm.i2cBitSendAddress_eq, i2cSendAddress, if_pos (toInt_retries_neg hr)]
    rfl
  rw [i2cBitXfer, i2cXferLoop, haddr]
  simp [hm.has_eq rtI2cIgnoreNack rfl, rtEio]

/-- The transfer of at least one message with such a number of retries. -/
lemma not_xferOk_of_le (hs : slave.InTime bus) (hr : 2 ^ 31 ≤ bus.retries.toNat)
    (hne : msgs.msgs ≠ []) : ¬ XferOk bus slave msgs.msgs := by
  obtain ⟨msgs, hplain, hfits⟩ := msgs
  obtain ⟨m, ms, rfl⟩ := exists_cons_of_ne_nil hne
  have htrace : (i2cBitXfer bus slave (m :: ms) []).2.2 = i2cStop bus slave (i2cStart []) :=
    trace_of_le (hplain m (mem_cons_self ..)) hr
  rintro ⟨fs, ok, hmessages, hidle, -⟩
  -- the trace decodes to a start and a stop, the transfer goes on with an address bit
  obtain ⟨b, l, hl⟩ := hmessages.symbols_eq
  have hstop := i2cStop_idle hs (i2cStart_low idle_nil)
  rw [htrace, Idle, hstop] at hidle
  simp [hl, Frame.symbols] at hidle

/-- `i2c_bit_xfer` works just if there is nothing to transfer or the number of retries fits the type
`rt_int32_t`. -/
theorem xferOk_iff (hs : slave.InTime bus) :
    XferOk bus slave msgs.msgs ↔ msgs.msgs = [] ∨ bus.retries.toNat < 2 ^ 31 := by
  constructor
  · intro hok
    by_contra! hcon
    exact not_xferOk_of_le hs hcon.2 hcon.1 hok
  · rintro (hnil | hr)
    · rw [hnil]
      exact xferOk_nil hs
    · exact xferOk_of_lt hs hr

end Transfer

def writeOne : I2cMsg := ⟨0x48, rtI2cWr, [0x0f], by decide⟩

def writeOneMsgs : PlainMsgs := ⟨[writeOne], by simp [I2cMsg.Plain, writeOne], by decide⟩

/-- A slave that acknowledges everything and drives only zeros. -/
def ackSlave : I2cSlave := ⟨fun _ => false, fun _ => 0⟩

lemma ackSlave_inTime (bus : I2cBus) : ackSlave.InTime bus := fun _ => Nat.zero_le _

theorem xferOk_writeOne :
    ackSlave.InTime ⟨3, 10, true⟩ ∧ XferOk ⟨3, 10, true⟩ ackSlave writeOneMsgs.msgs :=
  ⟨ackSlave_inTime _, (xferOk_iff (ackSlave_inTime _)).mpr (Or.inr (by decide))⟩

theorem not_xferOk_retries : ¬ XferOk ⟨0xffffffff, 10, true⟩ ackSlave writeOneMsgs.msgs :=
  not_xferOk_of_le (ackSlave_inTime _) (by decide) (by simp [writeOneMsgs])

end Drivers

import TempSns.Lib.TwoWire

/-!
# The I2C master over two pins

Embedding of `components/drivers/i2c/i2c-bit-ops.c`. The pins are the events of a trace (`TwoWire.Trace`);
a function takes the trace so far and returns a longer one. The delays of the source only space the
events and are left out.

The slave is a function of the trace: it answers what `GET_SDA` reads, and for how many ticks it holds
the clock low after the master has released it. `SCL_H` can time out, and then the transfer goes on or
fails as in the source.
-/

namespace Drivers

open TwoWire

/-- The negated error codes of `rtdef.h` that the transfer returns. -/
def rtError : ℤ := -1
@[inherit_doc rtError] def rtEtimeout : ℤ := -2
@[inherit_doc rtError] def rtEio : ℤ := -8

def rtI2cWr : UInt16 := 0x0000
def rtI2cRd : UInt16 := 0x0001
def rtI2cAddr10bit : UInt16 := 0x0004
def rtI2cNoStart : UInt16 := 0x0010
def rtI2cIgnoreNack : UInt16 := 0x0020
def rtI2cNoReadAck : UInt16 := 0x0040

/-- The buffer has `len` bytes. -/
structure I2cMsg where
  addr : UInt16
  flags : UInt16
  buf : List UInt8
  len_lt : buf.length < 2 ^ 16

namespace I2cMsg

/-- `msg->flags & flag`. -/
def has (m : I2cMsg) (flag : UInt16) : Bool := m.flags &&& flag != 0

/-- The flags say no more than the direction, and the address has 7 bits. -/
def Plain (m : I2cMsg) : Prop := (m.flags = rtI2cWr ∨ m.flags = rtI2cRd) ∧ m.addr < 128

end I2cMsg

/-- The fields of `struct rt_i2c_bus_device` and `struct rt_i2c_bit_ops` that the transfer reads. -/
structure I2cBus where
  retries : UInt32
  /-- `ops->timeout`, in ticks. -/
  timeout : UInt32
  /-- `ops->get_scl` is set. -/
  getScl : Bool

/-- What the slave answers after a trace. -/
structure I2cSlave where
  /-- The level of the data line that `GET_SDA` reads. -/
  sda : Trace → Bool
  /-- The ticks for which it holds the clock low. -/
  stretch : Trace → ℕ

/-- The ticks that `rt_thread_delay((ops->timeout + 1) >> 1)` takes: a delay of zero ticks lasts until
the next tick. -/
def pollTicks (timeout : UInt32) : ℕ := max 1 ((timeout + 1) >>> 1).toNat

/-- The loop `while (!GET_SCL(ops))` of `SCL_H`, after `elapsed` ticks. The result is false for a
timeout. -/
def waitScl (timeout : UInt32) (stretch elapsed : ℕ) : Bool :=
  if stretch ≤ elapsed then true
  else if timeout.toNat < elapsed % 2 ^ 32 then false
  else waitScl timeout stretch (elapsed + pollTicks timeout)
termination_by stretch - elapsed
decreasing_by
  have : 1 ≤ pollTicks timeout := Nat.le_max_left ..
  omega

section Transfer

variable (bus : I2cBus) (slave : I2cSlave)

/-- The result is false for `-RT_ETIMEOUT`. -/
def sclH (t : Trace) : Bool × Trace :=
  let t := t ++ [.scl true]
  (!bus.getScl || waitScl bus.timeout (slave.stretch t) 0, t)

def i2cStart (t : Trace) : Trace := t ++ [.sda false, .scl false]

def i2cRestart (t : Trace) : Trace :=
  (sclH bus slave (t ++ [.sda true])).2 ++ [.sda false, .scl false]

def i2cStop (t : Trace) : Trace := (sclH bus slave (t ++ [.sda false])).2 ++ [.sda true]

def i2cWaitack (t : Trace) : ℤ × Trace :=
  match sclH bus slave (t ++ [.sda true]) with
  | (false, t) => (rtEtimeout, t)
  | (true, t) =>
    let sda := slave.sda t
    (if sda then 0 else 1, t ++ [.sample sda, .scl false])

/-- The loop of `i2c_writeb`, with the bits from `n - 1` down to 0 to go. -/
def i2cWriteBits (data : UInt8) : ℕ → Trace → Bool × Trace
  | 0, t => (true, t)
  | n + 1, t =>
    match sclH bus slave (t ++ [.scl false, .sda (data.toNat.testBit n)]) with
    | (false, t) => (false, t)
    | (true, t) => i2cWriteBits data n t

def i2cWriteb (data : UInt8) (t : Trace) : ℤ × Trace :=
  match i2cWriteBits bus slave data 8 t with
  | (false, t) => (rtEtimeout, t)
  | (true, t) => i2cWaitack bus slave (t ++ [.scl false])

/-- The loop of `i2c_readb`, with `n` bits to go. -/
def i2cReadBits : ℕ → UInt8 → Trace → Option UInt8 × Trace
  | 0, data, t => (some data, t)
  | n + 1, data, t =>
    match sclH bus slave t with
    | (false, t) => (none, t)
    | (true, t) =>
      let sda := slave.sda t
      i2cReadBits n (shiftIn data sda) (t ++ [.sample sda, .scl false])

/-- There is no byte for `-RT_ETIMEOUT`. -/
def i2cReadb (t : Trace) : Option UInt8 × Trace := i2cReadBits bus slave 8 0 (t ++ [.sda true])

/-- The loop of `i2c_send_bytes`, with `bytes` sent. -/
def i2cSendBytes (ignoreNack : Bool) (bytes : ℤ) : List UInt8 → Trace → ℤ × Trace
  | [], t => (bytes, t)
  | b :: bs, t =>
    match i2cWriteb bus slave b t with
    | (ret, t) =>
      if ret > 0 ∨ (ignoreNack = true ∧ ret = 0) then i2cSendBytes ignoreNack (bytes + 1) bs t
      else if ret = 0 then (0, t)
      else (ret, t)

/-- The result is false for `-RT_ETIMEOUT`. -/
def i2cSendAckOrNack (ack : Bool) (t : Trace) : Bool × Trace :=
  match sclH bus slave (if ack then t ++ [.sda false] else t) with
  | (false, t) => (false, t)
  | (true, t) => (true, t ++ [.scl false])

/-- The loop of `i2c_recv_bytes`, with `bytes` received: the result, the rest of the buffer after it, and
the trace. -/
def i2cRecvBytes (noReadAck : Bool) (bytes : ℤ) : List UInt8 → Trace → ℤ × List UInt8 × Trace
  | [], t => (bytes, [], t)
  | b :: bs, t =>
    match i2cReadb bus slave t with
    | (none, t) => (bytes, b :: bs, t)
    | (some val, t) =>
      if noReadAck then
        match i2cRecvBytes noReadAck (bytes + 1) bs t with
        | (ret, buf, t) => (ret, val :: buf, t)
      else
        match i2cSendAckOrNack bus slave (bs.length != 0) t with
        | (false, t) => (rtEtimeout, val :: bs, t)
        | (true, t) =>
          match i2cRecvBytes noReadAck (bytes + 1) bs t with
          | (ret, buf, t) => (ret, val :: buf, t)

/-- The loop of `i2c_send_address` with `n = retries - i`. -/
def i2cAddressLoop (addr : UInt8) : ℕ → Trace → ℤ × Trace
  | 0, t => i2cWriteb bus slave addr t
  | n + 1, t =>
    match i2cWriteb bus slave addr t with
    | (ret, t) =>
      if ret = 1 then (ret, t) else i2cAddressLoop addr n (i2cStart (i2cStop bus slave t))

/-- The loop has no round if `retries` is negative. -/
def i2cSendAddress (addr : UInt8) (retries : ℤ) (t : Trace) : ℤ × Trace :=
  if retries < 0 then (0, t) else i2cAddressLoop bus slave addr retries.toNat t

/-- `addr1` of `i2c_bit_send_address` for a 7-bit address. -/
def i2cAddr7 (m : I2cMsg) : UInt8 :=
  let addr1 := (m.addr <<< 1).toUInt8
  if m.has rtI2cRd then addr1 ||| 1 else addr1

/-- The field `bus->retries` has the type `rt_uint32_t`, the variable `retries`
has the type `rt_int32_t`. -/
def i2cBitSendAddress (m : I2cMsg) (t : Trace) : ℤ × Trace :=
  let ignoreNack := m.has rtI2cIgnoreNack
  let retries : ℤ := if ignoreNack then 0 else bus.retries.toInt32.toInt
  if m.has rtI2cAddr10bit then
    let addr1 := (0xf0 : UInt8) ||| ((m.addr >>> 7).toUInt8 &&& 0x06)
    let addr2 : UInt8 := (m.addr &&& 0xff).toUInt8
    match i2cSendAddress bus slave addr1 retries t with
    | (ret, t) =>
      if ret ≠ 1 ∧ ignoreNack = false then (rtEio, t)
      else
        match i2cWriteb bus slave addr2 t with
        | (ret, t) =>
          if ret ≠ 1 ∧ ignoreNack = false then (rtEio, t)
          else if m.has rtI2cRd then
            match i2cSendAddress bus slave (addr1 ||| 0x01) retries (i2cRestart bus slave t) with
            | (ret, t) => if ret ≠ 1 ∧ ignoreNack = false then (rtEio, t) else (0, t)
          else (0, t)
  else
    match i2cSendAddress bus slave (i2cAddr7 m) retries t with
    | (ret, t) => if ret ≠ 1 ∧ ignoreNack = false then (rtEio, t) else (0, t)

/-- The address of message `i` in the loop of `i2c_bit_xfer`. -/
def i2cXferAddress (i : ℕ) (m : I2cMsg) (t : Trace) : ℤ × Trace :=
  if m.has rtI2cNoStart then (0, t)
  else i2cBitSendAddress bus slave m (if i ≠ 0 then i2cRestart bus slave t else t)

/-- The data of a message in the loop of `i2c_bit_xfer`: the number of bytes or an error, the buffer
and the trace. -/
def i2cXferData (m : I2cMsg) (t : Trace) : ℤ × List UInt8 × Trace :=
  if m.has rtI2cRd then i2cRecvBytes bus slave (m.has rtI2cNoReadAck) 0 m.buf t
  else
    match i2cSendBytes bus slave (m.has rtI2cIgnoreNack) 0 m.buf t with
    | (ret, t) => (ret, m.buf, t)

/-- The error after fewer than `msg->len` bytes. -/
def i2cShort (m : I2cMsg) (ret : ℤ) : ℤ :=
  if ret ≥ 0 then if m.has rtI2cRd then rtEio else rtError else ret

/-- The loop of `i2c_bit_xfer` at message `i`: the result, the buffers of the messages after it, and the
trace before the stop. -/
def i2cXferLoop : ℕ → List I2cMsg → Trace → ℤ × List (List UInt8) × Trace
  | i, [], t => (i, [], t)
  | i, m :: ms, t =>
    match i2cXferAddress bus slave i m t with
    | (ret, t) =>
      if ret ≠ 0 ∧ m.has rtI2cIgnoreNack = false then (ret, m.buf :: ms.map I2cMsg.buf, t)
      else
        match i2cXferData bus slave m t with
        | (ret, buf, t) =>
          if ret < m.buf.length then (i2cShort m ret, buf :: ms.map I2cMsg.buf, t)
          else
            match i2cXferLoop (i + 1) ms t with
            | (ret, bufs, t) => (ret, buf :: bufs, t)

/-- The result of type `rt_size_t`, the buffers of the messages, and the trace. -/
def i2cBitXfer (msgs : List I2cMsg) (t : Trace) : ℕ × List (List UInt8) × Trace :=
  match i2cXferLoop bus slave 0 msgs (i2cStart t) with
  | (ret, bufs, t) => ((ret % 2 ^ 32).toNat, bufs, i2cStop bus slave t)

end Transfer

end Drivers

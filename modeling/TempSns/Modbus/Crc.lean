import Mathlib.Tactic

/-!
# The checksum of Modbus frames

Embedding of `usMBCRC16` in `modbus/rtu/mbcrc.c`. The entries of `aucCRCLo` determine the index, so
that no two bytes and no two states have the same successor. A message with its checksum behind it
has the checksum zero, and no other end gives it this checksum.
-/

namespace Modbus

open Function List

/-- A table of 256 bytes in rows of 32, each row written as one number. -/
abbrev Table := List (BitVec 256)

def Table.entry (t : Table) (i : UInt8) : UInt8 :=
  ⟨(t.getD (i.toNat / 32) 0).extractLsb' (8 * (31 - i.toNat % 32)) 8⟩

def aucCRCHi : Table :=
  [0x00C1814001C0804101C0804100C1814001C0804100C1814000C1814001C08041,
    0x01C0804100C1814000C1814001C0804100C1814001C0804101C0804100C18140,
    0x01C0804100C1814000C1814001C0804100C1814001C0804101C0804100C18140,
    0x00C1814001C0804101C0804100C1814001C0804100C1814000C1814001C08041,
    0x01C0804100C1814000C1814001C0804100C1814001C0804101C0804100C18140,
    0x00C1814001C0804101C0804100C1814001C0804100C1814000C1814001C08041,
    0x00C1814001C0804101C0804100C1814001C0804100C1814000C1814001C08041,
    0x01C0804100C1814000C1814001C0804100C1814001C0804101C0804100C18140]

def aucCRCLo : Table :=
  [0x00C0C101C30302C2C60607C705C5C404CC0C0DCD0FCFCE0E0ACACB0BC90908C8,
    0xD81819D91BDBDA1A1EDEDF1FDD1D1CDC14D4D515D71716D6D21213D311D1D010,
    0xF03031F133F3F23236F6F737F53534F43CFCFD3DFF3F3EFEFA3A3BFB39F9F838,
    0x28E8E929EB2B2AEAEE2E2FEF2DEDEC2CE42425E527E7E62622E2E323E12120E0,
    0xA06061A163A3A26266A6A767A56564A46CACAD6DAF6F6EAEAA6A6BAB69A9A868,
    0x78B8B979BB7B7ABABE7E7FBF7DBDBC7CB47475B577B7B67672B2B373B17170B0,
    0x509091519353529296565797559594549C5C5D9D5F9F9E5E5A9A9B5B99595898,
    0x884849894B8B8A4A4E8E8F4F8D4D4C8C44848545874746868242438341818040]

/-- A round of `usMBCRC16`, on `ucCRCHi` and `ucCRCLo`. -/
def crcRound (crc : UInt8 × UInt8) (b : UInt8) : UInt8 × UInt8 :=
  (aucCRCLo.entry (crc.2 ^^^ b), crc.1 ^^^ aucCRCHi.entry (crc.2 ^^^ b))

/-- `usMBCRC16`, the result as its high and its low byte. -/
def usMBCRC16 (frame : List UInt8) : UInt8 × UInt8 := frame.foldl crcRound (0xFF, 0xFF)

/-- One step of the division by the reflected polynomial, backwards. -/
def undo (x : BitVec 16) : BitVec 16 :=
  if x.msb then ((x ^^^ 0xA001) <<< 1) ||| 1 else x <<< 1

/-- The index of an entry of `aucCRCLo`. -/
def indexOf (b : UInt8) : UInt8 := ⟨(undo^[8] (b.toBitVec.setWidth 16 <<< 8)).setWidth 8⟩

lemma indexOf_entry (i : UInt8) : indexOf (aucCRCLo.entry i) = i := by
  have h : ∀ i : Fin 256, indexOf (aucCRCLo.entry (.ofFin i)) = .ofFin i := by decide +kernel
  exact h i.toFin

variable {c c' : UInt8 × UInt8} {b b' : UInt8} {frame : List UInt8}

lemma index_eq_of_crcRound (h : crcRound c b = crcRound c' b') : c.2 ^^^ b = c'.2 ^^^ b' := by
  rw [← indexOf_entry (c.2 ^^^ b), ← indexOf_entry (c'.2 ^^^ b')]
  exact congrArg indexOf (Prod.mk.inj h).1

lemma crcRound_injective (b : UInt8) : Injective (crcRound · b) := by
  intro c c' h
  have hlow := (UInt8.xor_left_inj b).mp (index_eq_of_crcRound h)
  have hhigh := (Prod.mk.inj h).2
  rw [hlow] at hhigh
  exact Prod.ext ((UInt8.xor_left_inj _).mp hhigh) hlow

lemma foldl_crcRound_injective (frame : List UInt8) : Injective (frame.foldl crcRound) := by
  induction frame with
  | nil => exact injective_id
  | cons b frame ih => exact ih.comp (crcRound_injective b)

/-- A message and its checksum, the low byte first. -/
def sealed (frame : List UInt8) : List UInt8 :=
  frame ++ [(usMBCRC16 frame).2, (usMBCRC16 frame).1]

lemma crcRound_eq_zero_iff : crcRound c b = (0, b') ↔ c = (b', b) := by
  have hlo : aucCRCLo.entry 0 = 0 := by decide
  have hhi : aucCRCHi.entry 0 = 0 := by decide
  constructor
  · intro h
    have hzero : c.2 ^^^ b = 0 := by
      rw [← indexOf_entry (c.2 ^^^ b), (Prod.mk.inj h).1]
      decide
    have hhigh := (Prod.mk.inj h).2
    rw [hzero, hhi, UInt8.xor_zero] at hhigh
    exact Prod.ext hhigh (UInt8.xor_eq_zero_iff.mp hzero)
  · rintro rfl
    simp [crcRound, hlo, hhi]

/-- Exactly the sealed messages pass the test. -/
lemma usMBCRC16_eq_zero_iff {x y : UInt8} :
    usMBCRC16 (frame ++ [x, y]) = (0, 0) ↔ frame ++ [x, y] = sealed frame := by
  rw [usMBCRC16, foldl_append, foldl_cons, foldl_cons, foldl_nil, crcRound_eq_zero_iff,
    crcRound_eq_zero_iff, ← usMBCRC16, sealed, append_cancel_left_eq, Prod.ext_iff]
  simp [and_comm, eq_comm]

end Modbus

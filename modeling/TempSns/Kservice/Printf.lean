import Mathlib.Tactic
import TempSns.Kservice.FormatBounds

/-!
# Output to the console

`rt_kprintf` of `src/kservice.c`. The text is formatted into `rt_log_buf`, and its first bytes are
written to the console device; without a device the string in the buffer goes to
`rt_hw_console_output`. `rt_vsnprintf` is told one byte less than the buffer has and keeps one byte for
the NUL, so that at most `RT_CONSOLEBUF_SIZE - 2` characters are stored, but the number of bytes that are
sent is only bounded by `RT_CONSOLEBUF_SIZE - 1`.
-/

namespace Kservice

open Sink CString List UInt32

/-- `rt_log_buf` of `RT_CONSOLEBUF_SIZE` bytes, which has room for a character and the NUL at least. -/
structure LogBuffer where
  buf : UInt32
  size : UInt32
  buf_pos : 0 < buf.toNat
  in_space : buf.toNat + size.toNat ≤ 2 ^ 32
  two_le : 2 ≤ size.toNat

/-- The part of the buffer that `rt_vsnprintf` is told. -/
def LogBuffer.told (b : LogBuffer) : Buffer where
  buf := b.buf
  size := b.size - 1
  buf_pos := b.buf_pos
  in_space := by
    have hspace := b.in_space
    have htwo := b.two_le
    rw [UInt32.toNat_sub_of_le _ _ (by rw [UInt32.le_iff_toNat_le, UInt32.toNat_one]; omega)]
    omega

def bytesAt (mem : UInt32 → UInt8) (a : UInt32) : ℕ → List UInt8
  | 0 => []
  | n + 1 => mem a :: bytesAt mem (a + 1) n

/-- The characters before the first NUL. -/
def stringAt (mem : UInt32 → UInt8) : ℕ → UInt32 → Except Fault (List UInt8)
  | 0, _ => .error .diverges
  | fuel + 1, a => if mem a = 0 then .ok [] else (mem a :: ·) <$> stringAt mem fuel (a + 1)

/-- The characters that are sent to the device, or to `rt_hw_console_output`. -/
def rtKprintf (strings : Strings) (device : Bool) (mem : UInt32 → UInt8) (b : LogBuffer)
    (fmt : List UInt8) (args : ℕ → UInt32) : Except Fault (List UInt8) := do
  let (mem, length) ← rtVsnprintf strings mem b.told.buf b.told.size fmt args
  let length := length.toUInt32
  let length := if b.size - 1 < length then b.size - 1 else length
  if device then .ok (bytesAt mem b.buf length.toNat) else stringAt mem (2 ^ 32) b.buf

/-- Exactly the first characters of the text are sent. -/
def SendsText (strings : Strings) (device : Bool) (b : LogBuffer) (fmt : List UInt8)
    (args : ℕ → UInt32) : Prop :=
  ∀ mem, rtKprintf strings device mem b fmt args =
    .ok ((formatText strings fmt args).take (b.size.toNat - 1))

variable {strings : Strings} {args : ℕ → UInt32} {fmt : List UInt8} {b : LogBuffer}
  {mem : UInt32 → UInt8} {a last : UInt32} {l : List UInt8} {fuel : ℕ} {k : Sink}

lemma LogBuffer.toNat_told (b : LogBuffer) : b.told.size.toNat = b.size.toNat - 1 := by
  have htwo := b.two_le
  exact UInt32.toNat_sub_of_le _ _ (by rw [UInt32.le_iff_toNat_le, UInt32.toNat_one]; omega)

/-! ## Reading the buffer -/

lemma add_ofNat_zero (a : UInt32) : a + UInt32.ofNat 0 = a := UInt32.add_zero a

lemma add_ofNat_succ (a : UInt32) (i : ℕ) :
    a + UInt32.ofNat (i + 1) = a + 1 + UInt32.ofNat i := by
  rw [UInt32.ofNat_add, UInt32.add_comm (UInt32.ofNat i), ← UInt32.add_assoc]
  rfl

lemma bytesAt_eq (h : ∀ i < l.length, mem (a + ofNat i) = cstr l i) :
    bytesAt mem a l.length = l := by
  induction l generalizing a with
  | nil => rfl
  | cons c l ih =>
    have hfirst := h 0 (by simp)
    rw [add_ofNat_zero] at hfirst
    rw [length_cons, bytesAt, hfirst, cstr_cons_zero, ih fun i hi => ?_]
    have hnext := h (i + 1) (by simp; omega)
    rw [add_ofNat_succ, cstr_cons_succ] at hnext
    exact hnext

lemma bytesAt_eq_map (n : ℕ) : bytesAt mem a n = (range n).map fun i => mem (a + ofNat i) := by
  induction n generalizing a with
  | zero => rfl
  | succ n ih =>
    rw [bytesAt, ih, range_succ_eq_map, map_cons, map_map, add_ofNat_zero]
    exact congrArg _ (map_congr_left fun i _ => congrArg mem (add_ofNat_succ a i).symm)

lemma stringAt_eq (h : ∀ i ≤ l.length, mem (a + ofNat i) = cstr l i)
    (hnul : 0 ∉ l) (hfuel : l.length < fuel) : stringAt mem fuel a = .ok l := by
  induction l generalizing a fuel with
  | nil =>
    obtain ⟨fuel, rfl⟩ := Nat.exists_eq_add_of_lt hfuel
    have hfirst := h 0 le_rfl
    rw [add_ofNat_zero, cstr_nil] at hfirst
    rw [stringAt, if_pos hfirst]
  | cons c l ih =>
    obtain ⟨fuel, rfl⟩ := Nat.exists_eq_succ_of_ne_zero (Nat.ne_zero_of_lt hfuel)
    have hfirst := h 0 (Nat.zero_le _)
    rw [add_ofNat_zero, cstr_cons_zero] at hfirst
    have hne : c ≠ 0 := fun hc => hnul (hc ▸ mem_cons_self)
    rw [stringAt, hfirst, if_neg hne, ih (fun i hi => ?_) (fun hmem => hnul (mem_cons_of_mem _ hmem))
      (by rw [length_cons] at hfuel; omega)]
    · rfl
    · have hnext := h (i + 1) (by simp; omega)
      rw [add_ofNat_succ, cstr_cons_succ] at hnext
      exact hnext

lemma stringAt_inv (h : stringAt mem fuel a = .ok l) : 0 ∉ l ∧ mem (a + ofNat l.length) = 0 := by
  induction fuel generalizing a l with
  | zero => cases h
  | succ fuel ih =>
    rw [stringAt] at h
    split at h
    · rename_i hzero
      obtain rfl := Except.ok.inj h
      refine ⟨not_mem_nil, ?_⟩
      rw [length_nil, add_ofNat_zero]
      exact hzero
    · rename_i hne
      obtain ⟨l', hrest, rfl⟩ := map_eq_ok.mp h
      obtain ⟨hnul, hend⟩ := ih hrest
      refine ⟨fun hmem => ?_, ?_⟩
      · rcases mem_cons.mp hmem with heq | hmem
        · exact hne heq.symm
        · exact hnul hmem
      · rw [length_cons, add_ofNat_succ]
        exact hend

/-! ## What the buffer holds -/

lemma mem_puts_of_gt (ha : last < a) : (puts last k l).mem a = k.mem a := by
  induction l generalizing k with
  | nil => rfl
  | cons c l ih =>
    rw [puts_cons, ih, put]
    dsimp only
    split
    · rename_i hle
      exact Function.update_of_ne (fun heq => absurd (heq ▸ hle) (UInt32.not_le.mpr ha)) ..
    · rfl

lemma terminate_of_gt (ha : last < a) : terminate last k a = k.mem a := by
  rw [terminate]
  split
  · rename_i hle
    exact Function.update_of_ne (fun heq => absurd (heq ▸ hle) (UInt32.not_le.mpr ha)) ..
  · exact Function.update_of_ne (by rintro rfl; exact UInt32.lt_irrefl _ ha) ..

lemma last_byte (b : LogBuffer) :
    endPointer b.told.buf b.told.size < b.buf + ofNat (b.size.toNat - 1) := by
  have htwo := b.two_le
  have hspace := b.in_space
  have htold := b.toNat_told
  have hend := toNat_endPointer (b := b.told) (by omega)
  have ha := toNat_add_ofNat (show b.buf.toNat + (b.size.toNat - 1) < 2 ^ 32 by omega)
  change _ = b.buf.toNat + _ at hend
  rw [lt_iff_toNat_lt, ha]
  omega

lemma signsFit_of_le {ps : List Piece} {size : ℕ} (hle : (textOf ps).length ≤ size) :
    SignsFit size 0 ps := by
  rintro ps₁ p ps₂ rfl hpadded
  obtain ⟨hsign, -⟩ := p.tail_cases.resolve_left hpadded
  obtain ⟨c, hc⟩ := Option.isSome_iff_exists.mp hsign
  have hcons := textOf_cons p ps₂
  rw [textOf, flatMap_append, length_append] at hle
  rw [textOf] at hcons
  rw [hcons, Piece.text, hc, Option.toList_some] at hle
  simp only [length_append, length_cons, length_nil] at hle
  rw [textOf]
  omega

/-- A text that leaves two bytes free is in the buffer, with a NUL behind it. -/
lemma rtVsnprintf_of_short (mem : UInt32 → UInt8)
    (hlen : (formatText strings fmt args).length + 2 ≤ b.size.toNat) :
    ∃ mem', rtVsnprintf strings mem b.told.buf b.told.size fmt args =
        .ok (mem', (ofNat (formatText strings fmt args).length).toInt32) ∧
      ∀ i ≤ (formatText strings fmt args).length,
        mem' (b.buf + ofNat i) = cstr (formatText strings fmt args) i := by
  have hspace := b.in_space
  have htold := b.toNat_told
  have hsize : 0 < b.told.size.toNat := by omega
  have hwrap : b.told.buf.toNat + (formatText strings fmt args).length < 2 ^ 32 := by
    change b.buf.toNat + _ < _
    omega
  have hchars : callChars strings b.told fmt args = formatText strings fmt args :=
    charsAt_eq (toNat_endPointer hsize) rfl hwrap
      (signsFit_of_le (show (formatText strings fmt args).length ≤ _ by omega))
  rw [rtVsnprintf_eq, hchars]
  refine ⟨_, rfl, fun i hi => ?_⟩
  have ha := toNat_add_ofNat (show b.buf.toNat + i < 2 ^ 32 by omega)
  have hterm := terminate_puts hsize mem hwrap (b.buf + ofNat i)
  rw [hterm, ha]
  change (if _ = b.buf.toNat + _ then _ else if b.buf.toNat ≤ _ ∧ _ < b.buf.toNat + _ then
    (formatText strings fmt args).getD (_ - b.buf.toNat) 0 else _) = _
  rcases Nat.eq_or_lt_of_le hi with heq | hlt
  · rw [if_pos (by omega), cstr_of_ge (by omega)]
  · rw [if_neg (by omega), if_pos (by omega), Nat.add_sub_cancel_left]
    rfl

/-- With a device: if the text fills the buffer and has no NUL, the NUL of the buffer is sent in place of
its last character. -/
lemma length_of_sendsText (hspace : b.buf.toNat + (callChars strings b.told fmt args).length < 2 ^ 32)
    (hnul : 0 ∉ formatText strings fmt args) (h : SendsText strings true b fmt args) :
    (formatText strings fmt args).length + 2 ≤ b.size.toNat := by
  by_contra hge
  have htwo := b.two_le
  have hin := b.in_space
  have htold := b.toNat_told
  have hsent := h fun _ => 0
  unfold rtKprintf at hsent
  rw [rtVsnprintf_eq, ok_bind] at hsent
  have hbytes := Except.ok.inj hsent
  rw [bytesAt_eq_map] at hbytes
  -- as many bytes as the buffer has without its last one
  have hcount := congrArg List.length hbytes
  rw [length_map, length_range, length_take, min_eq_left (by omega)] at hcount
  have hmin : b.size.toNat - 1 ≤ (callChars strings b.told fmt args).length := by
    have hlength : (ofNat (callChars strings b.told fmt args).length).toNat =
        (callChars strings b.told fmt args).length := by
      rw [toNat_ofNat', Nat.mod_eq_of_lt (by omega)]
    split at hcount
    · rename_i hlt
      have hlt' := lt_iff_toNat_lt.mp hlt
      change b.told.size.toNat < (ofNat _).toNat at hlt'
      omega
    · change (ofNat _).toNat = _ at hcount
      omega
  refine hnul (mem_of_mem_take (i := b.size.toNat - 1) ?_)
  rw [← hbytes, hcount]
  refine mem_map.mpr ⟨b.size.toNat - 2, mem_range.mpr (by omega), ?_⟩
  have ha := toNat_add_ofNat (show b.buf.toNat + (b.size.toNat - 2) < 2 ^ 32 by omega)
  refine (terminate_puts (b := b.told) (by omega) _ hspace _).trans (if_pos ?_)
  change (b.buf + _).toNat = b.buf.toNat + _
  omega

/-- A text that leaves two bytes free and that is sent as a string if there is no device. -/
lemma sendsText_of_short {device : Bool}
    (hlen : (formatText strings fmt args).length + 2 ≤ b.size.toNat)
    (hnul : device = false → 0 ∉ formatText strings fmt args) :
    SendsText strings device b fmt args := by
  intro mem
  obtain ⟨mem', hcall, hbytes⟩ := rtVsnprintf_of_short mem hlen
  have hspace := b.in_space
  have hone : (b.size - 1).toNat = b.size.toNat - 1 := b.toNat_told
  have hlength : (ofNat (formatText strings fmt args).length).toNat =
      (formatText strings fmt args).length := by
    rw [toNat_ofNat', Nat.mod_eq_of_lt (by omega)]
  rw [rtKprintf, hcall, ok_bind, take_of_length_le (by omega)]
  cases device with
  | true =>
    have hsmall : ¬ b.size - 1 < (ofNat (formatText strings fmt args).length) := by
      rw [lt_iff_toNat_lt, hone, hlength]
      omega
    have hbound : (if b.size - 1 < ofNat (formatText strings fmt args).length then b.size - 1
        else ofNat (formatText strings fmt args).length).toNat =
        (formatText strings fmt args).length := by rw [if_neg hsmall, hlength]
    change Except.ok (bytesAt mem' b.buf _) = _
    exact congrArg Except.ok ((congrArg (bytesAt mem' b.buf) hbound).trans
      (bytesAt_eq fun i hi => hbytes i hi.le))
  | false => exact stringAt_eq hbytes (hnul rfl) (by omega)

/-- For every format and all arguments. Without a device the text is sent as it should be exactly if it
leaves two bytes of the buffer free and has no NUL in it. With a device it is if it leaves two bytes
free, and only if it does, as long as it has no NUL and ends inside the address space. -/
theorem sendsText_iff (strings : Strings) (b : LogBuffer) (fmt : List UInt8) (args : ℕ → UInt32) :
    (SendsText strings false b fmt args ↔
      (formatText strings fmt args).length + 2 ≤ b.size.toNat ∧ 0 ∉ formatText strings fmt args) ∧
    ((formatText strings fmt args).length + 2 ≤ b.size.toNat → SendsText strings true b fmt args) ∧
    (b.buf.toNat + (callChars strings b.told fmt args).length < 2 ^ 32 →
      0 ∉ formatText strings fmt args → SendsText strings true b fmt args →
      (formatText strings fmt args).length + 2 ≤ b.size.toNat) := by
  refine ⟨⟨fun h => ?_, fun ⟨hlen, hnul⟩ => sendsText_of_short hlen fun _ => hnul⟩,
    fun hlen => sendsText_of_short hlen nofun, length_of_sendsText⟩
  -- the string in the buffer is sent; its last byte is not written
  have hhook := h fun _ => 1
  unfold rtKprintf at hhook
  rw [rtVsnprintf_eq, ok_bind] at hhook
  obtain ⟨hnul, hend⟩ := stringAt_inv hhook
  have hlt : (formatText strings fmt args).length + 2 ≤ b.size.toNat := by
    by_contra hge
    rw [length_take, min_eq_left (by omega), terminate_of_gt (last_byte b),
      mem_puts_of_gt (last_byte b)] at hend
    exact absurd (show (1 : UInt8) = 0 from hend) (by decide)
  rw [take_of_length_le (by omega)] at hnul
  exact ⟨hlt, hnul⟩

def eightBytes : LogBuffer := ⟨0x20000100, 8, by decide, by decide, by decide⟩

/-- The text `abcd` in a buffer of eight bytes. -/
theorem sendsText_abcd : SendsText ⟨fun _ => []⟩ false eightBytes [0x61, 0x62, 0x63, 0x64] (fun _ => 0) ∧
    SendsText ⟨fun _ => []⟩ true eightBytes [0x61, 0x62, 0x63, 0x64] (fun _ => 0) := by
  have htext : formatText ⟨fun _ => []⟩ [0x61, 0x62, 0x63, 0x64] (fun _ => 0) =
      [0x61, 0x62, 0x63, 0x64] := by decide +kernel
  obtain ⟨hstring, hdevice, -⟩ := sendsText_iff ⟨fun _ => []⟩ eightBytes [0x61, 0x62, 0x63, 0x64]
    (fun _ => 0)
  rw [htext] at hstring hdevice
  exact ⟨hstring.mpr (by decide), hdevice (by decide)⟩

/-- The text `abcdefg` of seven characters in a buffer of eight bytes: with a device the last byte that
is sent is a NUL. -/
theorem not_sendsText_full :
    formatText ⟨fun _ => []⟩ [0x61, 0x62, 0x63, 0x64, 0x65, 0x66, 0x67] (fun _ => 0) =
        [0x61, 0x62, 0x63, 0x64, 0x65, 0x66, 0x67] ∧
      rtKprintf ⟨fun _ => []⟩ true (fun _ => 0) eightBytes [0x61, 0x62, 0x63, 0x64, 0x65, 0x66, 0x67]
        (fun _ => 0) = .ok [0x61, 0x62, 0x63, 0x64, 0x65, 0x66, 0] ∧
      ¬ SendsText ⟨fun _ => []⟩ true eightBytes [0x61, 0x62, 0x63, 0x64, 0x65, 0x66, 0x67]
        (fun _ => 0) := by
  have hsent : rtKprintf ⟨fun _ => []⟩ true (fun _ => 0) eightBytes
      [0x61, 0x62, 0x63, 0x64, 0x65, 0x66, 0x67] (fun _ => 0) =
        .ok [0x61, 0x62, 0x63, 0x64, 0x65, 0x66, 0] := by decide +kernel
  refine ⟨by decide +kernel, hsent, fun h => ?_⟩
  have heq := hsent.symm.trans (h fun _ => 0)
  exact absurd heq (by decide +kernel)
end Kservice

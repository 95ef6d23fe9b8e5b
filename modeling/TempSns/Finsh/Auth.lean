import TempSns.Kservice.Strings
import TempSns.Lib.Exec

/-!
# The login of the shell

Embedding of `finsh_set_password` and `finsh_wait_auth` of `components/finsh/shell.c`. The input is the
sequence of bytes that `finsh_getchar` returns. The size of the password buffers,
`FINSH_PASSWORD_MAX`, is a parameter.

A backspace clears the byte behind the last character, not the last character itself. So the character
that a last backspace deleted still takes part in the comparison, and a backspace on a full buffer is a
store behind the end of the buffer. Characters that do not fit are dropped without a trace.
-/

namespace Finsh

open CString Kservice List Option Except

def finshPasswordMin : ℕ := 6

def backspace : UInt8 := 0x08

/-- The character is between `' '` and `'~'`. -/
def Printable (ch : UInt8) : Prop := 0x20 ≤ ch ∧ ch ≤ 0x7e

/-- Whether a character is printable is decidable. -/
instance (ch : UInt8) : Decidable (Printable ch) := by
  unfold Printable
  infer_instance

/-- The character ends a line. -/
def IsEnter (ch : UInt8) : Prop := ch = 0x0d ∨ ch = 0x0a

/-- Whether a character ends a line is decidable. -/
instance (ch : UInt8) : Decidable (IsEnter ch) := by
  unfold IsEnter
  infer_instance

/-- The new contents of `shell->password`, or `none` for an error. -/
def finshSetPassword (max : ℕ) (stored : ℕ → UInt8) (password : List UInt8) : Option (ℕ → UInt8) :=
  if password.length < finshPasswordMin ∨ password.length > max then none
  else some (rtStrncpy stored (cstr password) max)

/-- The local variables of `finsh_wait_auth`. -/
structure AuthLine where
  password : ℕ → UInt8
  curPos : ℕ

/-- The variables at the start of an attempt. -/
def AuthLine.fresh : AuthLine := ⟨fun _ => 0, 0⟩

/-- A store to the buffer `password`, which has `max` bytes. -/
def AuthLine.store (max : ℕ) (s : AuthLine) (i : ℕ) (ch : UInt8) : Except Fault AuthLine :=
  if i < max then .ok { s with password := Function.update s.password i ch } else .error .badIndex

/-- The round of the inner loop for a character that does not end the line. -/
def authKey (max : ℕ) (s : AuthLine) (ch : UInt8) : Except Fault AuthLine :=
  if Printable ch ∧ s.curPos < max then
    (s.store max s.curPos ch).map fun s => { s with curPos := s.curPos + 1 }
  else if ch = backspace ∧ 0 < s.curPos then
    (s.store max s.curPos 0).map fun s => { s with curPos := s.curPos - 1 }
  else .ok s

/-- The loops of `finsh_wait_auth`. The result is the rest of the input after a successful login, and
`none` if the input ends before. -/
def authLoop (max : ℕ) (stored : ℕ → UInt8) :
    AuthLine → List UInt8 → Except Fault (Option (List UInt8))
  | _, [] => .ok none
  | s, ch :: input =>
    if IsEnter ch then
      if rtStrncmp stored s.password max = 0 then .ok (some input)
      -- authentication failed, retry with cleared variables
      else authLoop max stored .fresh input
    else authKey max s ch >>= fun s => authLoop max stored s input

def finshWaitAuth (max : ℕ) (stored : ℕ → UInt8) (input : List UInt8) :
    Except Fault (Option (List UInt8)) :=
  -- the length of the stored password is zero: password not set
  if stored 0 = 0 then .ok (some input) else authLoop max stored .fresh input

/-! ## Typed text -/

/-- A text under editing. -/
structure Typed where
  /-- The text that is left after the backspaces so far. -/
  text : List UInt8
  /-- The character that the last backspace deleted, if no character was typed after it. -/
  deleted : Option UInt8

def Typed.key (t : Typed) (ch : UInt8) : Typed :=
  if Printable ch then ⟨t.text ++ [ch], none⟩
  else if ch = backspace then
    match t.text.getLast? with
    | some c => ⟨t.text.dropLast, some c⟩
    | none => t
  else t

def typed (keys : List UInt8) : Typed := keys.foldl Typed.key ⟨[], none⟩

/-- The login works for a typed line: no store leaves the buffer, and the line is accepted if and only
if its text is the password. -/
def LoginOk (max : ℕ) (stored : ℕ → UInt8) (password keys : List UInt8) (enter : UInt8) : Prop :=
  ∃ result, finshWaitAuth max stored (keys ++ [enter]) = .ok result ∧
    (result.isSome ↔ (typed keys).text = password)

def NoBackspaceOnFull (max : ℕ) (pre keys : List UInt8) : Prop :=
  ∀ keys₁ keys₂, keys = keys₁ ++ backspace :: keys₂ → (typed (pre ++ keys₁)).text.length < max

/-- The line neither needs more than the buffer nor ends in a backspace that matters. -/
structure CleanLine (max : ℕ) (password keys : List UInt8) : Prop where
  /-- No backspace is typed on a full buffer. -/
  notFull : NoBackspaceOnFull max [] keys
  /-- The correct text is not reached by a backspace. -/
  notDeleted : (typed keys).text = password → (typed keys).deleted = none
  /-- The deleted character does not complete the text to the password. -/
  notCompleted : ∀ c, (typed keys).deleted = some c → (typed keys).text ++ [c] ≠ password
  /-- No character is typed behind a password of the full length. -/
  noSurplus : max < (typed keys).text.length → (typed keys).text.take max ≠ password

/-! ## Buffer -/

variable {max : ℕ} {s s' : AuthLine} {t : Typed} {ch : UInt8} {pre keys password : List UInt8}
  {stored : ℕ → UInt8}

def Typed.shown (max : ℕ) (t : Typed) : List UInt8 := t.text.take max ++ t.deleted.toList

/-- The local variables hold the text. -/
structure Holds (max : ℕ) (s : AuthLine) (t : Typed) : Prop where
  password : s.password = cstr (t.shown max)
  curPos : s.curPos = min t.text.length max
  nonzero : 0 ∉ t.text
  /-- A deleted character stands in the buffer. -/
  deleted : ∀ c, t.deleted = some c → t.text.length < max ∧ c ≠ 0

lemma not_printable_backspace : ¬ Printable backspace := by decide

lemma Printable.ne_zero (h : Printable ch) : ch ≠ 0 := by
  rintro rfl
  exact absurd h (by decide)

lemma length_toList_le (o : Option UInt8) : o.toList.length ≤ 1 := by
  cases o with
  | none => exact Nat.zero_le 1
  | some c => exact le_rfl

namespace Holds

lemma fresh (max : ℕ) : Holds max .fresh ⟨[], none⟩ :=
  ⟨by rw [Typed.shown, take_nil]; rfl, (Nat.zero_min max).symm, not_mem_nil, nofun⟩

section

variable (h : Holds max s t)

include h

lemma printable (hprint : Printable ch) :
    ∃ s', authKey max s ch = .ok s' ∧ Holds max s' (t.key ch) := by
  have hnonzero : 0 ∉ t.text ++ [ch] := by
    intro hmem
    rcases mem_append.mp hmem with hmem | hmem
    · exact h.nonzero hmem
    · exact hprint.ne_zero (mem_singleton.mp hmem).symm
  rw [authKey, Typed.key, if_pos hprint]
  rcases lt_or_ge t.text.length max with hroom | hfull
  · -- the character is written behind the text, over a deleted one
    have hpos : s.curPos = t.text.length := h.curPos.trans (min_eq_left hroom.le)
    have hbuffer : Function.update s.password t.text.length ch = cstr (t.text ++ [ch]) := by
      rw [h.password, Typed.shown, take_of_length_le hroom.le,
        update_cstr t.text ch (length_toList_le t.deleted)]
    rw [hpos, if_pos ⟨hprint, hroom⟩, AuthLine.store, if_pos hroom, hbuffer]
    refine ⟨_, rfl, ?_, ?_, hnonzero, nofun⟩
    · rw [Typed.shown, take_of_length_le (by simpa using hroom), toList_none, append_nil]
    · simp only [hpos, length_append, length_singleton]
      omega
  · -- the character is dropped
    have hpos : s.curPos = max := h.curPos.trans (min_eq_right hfull)
    have hnone : t.deleted = none := by
      rw [eq_none_iff_forall_ne_some]
      intro c hc
      exact absurd (h.deleted c hc).1 (not_lt.mpr hfull)
    have hbs : ch ≠ backspace := by
      rintro rfl
      exact not_printable_backspace hprint
    rw [hpos, if_neg fun hand => lt_irrefl max hand.2, if_neg fun hand => hbs hand.1]
    refine ⟨s, rfl, ?_, ?_, hnonzero, nofun⟩
    · rw [h.password, Typed.shown, Typed.shown, hnone, take_append_of_le_length hfull]
    · rw [hpos, length_append, min_eq_right (by omega)]

/-- A character is deleted from a text with room behind it. -/
lemma backspace (hroom : t.text.length < max) :
    ∃ s', authKey max s backspace = .ok s' ∧ Holds max s' (t.key backspace) := by
  have hpos : s.curPos = t.text.length := h.curPos.trans (min_eq_left hroom.le)
  rw [authKey, Typed.key, if_neg fun hand => not_printable_backspace hand.1,
    if_neg not_printable_backspace, if_pos rfl, hpos]
  rcases eq_nil_or_concat t.text with hnil | ⟨text, c, htext⟩
  · -- nothing to delete
    rw [hnil, if_neg (by simp), getLast?_nil]
    exact ⟨s, rfl, h⟩
  · rw [concat_eq_append] at htext
    have hlast : t.text.getLast? = some c := by rw [htext, getLast?_concat]
    have hdrop : t.text.dropLast = text := by rw [htext, dropLast_concat]
    have hlength : t.text.length = text.length + 1 := by
      rw [htext, length_append, length_singleton]
    -- the byte behind the deleted character is cleared
    have hbuffer : Function.update s.password t.text.length 0 = cstr t.text := by
      rw [h.password, Typed.shown, take_of_length_le hroom.le,
        update_cstr t.text 0 (length_toList_le t.deleted), cstr_append_zero]
    rw [if_pos ⟨rfl, by omega⟩, AuthLine.store, if_pos hroom, hbuffer, hlast, hdrop]
    refine ⟨_, rfl, ?_, ?_, ?_, ?_⟩
    · dsimp only
      rw [Typed.shown, take_of_length_le (by dsimp only; omega), toList_some, htext]
    · dsimp only
      omega
    · exact fun hmem => h.nonzero (htext ▸ mem_append_left [c] hmem)
    · rintro d hd
      obtain rfl : c = d := some.inj hd
      refine ⟨by dsimp only; omega, ?_⟩
      rintro rfl
      exact h.nonzero (htext ▸ mem_append_right text mem_cons_self)

/-- A backspace on a full buffer is a store behind its end. -/
lemma backspace_full (hmax : 0 < max) (hfull : max ≤ t.text.length) :
    authKey max s Finsh.backspace = .error .badIndex := by
  have hpos : s.curPos = max := h.curPos.trans (min_eq_right hfull)
  rw [authKey, if_neg fun hand => not_printable_backspace hand.1, hpos, if_pos ⟨rfl, hmax⟩,
    AuthLine.store, if_neg (lt_irrefl max)]
  rfl

lemma other (hprint : ¬ Printable ch) (hbs : ch ≠ Finsh.backspace) :
    ∃ s', authKey max s ch = .ok s' ∧ Holds max s' (t.key ch) := by
  rw [authKey, Typed.key, if_neg fun hand => hprint hand.1, if_neg fun hand => hbs hand.1,
    if_neg hprint, if_neg hbs]
  exact ⟨s, rfl, h⟩

lemma authKey (hroom : ch = Finsh.backspace → t.text.length < max) :
    ∃ s', authKey max s ch = .ok s' ∧ Holds max s' (t.key ch) := by
  by_cases hprint : Printable ch
  · exact h.printable hprint
  · by_cases hbs : ch = Finsh.backspace
    · subst hbs
      exact h.backspace (hroom rfl)
    · exact h.other hprint hbs

end

end Holds

lemma typed_append_singleton (pre : List UInt8) (ch : UInt8) :
    typed (pre ++ [ch]) = (typed pre).key ch := by
  rw [typed, typed, foldl_append, foldl_cons, foldl_nil]

lemma noBackspaceOnFull_cons : NoBackspaceOnFull max pre (ch :: keys) ↔
    (ch = backspace → (typed pre).text.length < max) ∧ NoBackspaceOnFull max (pre ++ [ch]) keys := by
  constructor
  · intro h
    refine ⟨?_, ?_⟩
    · rintro rfl
      have hlen := h [] keys rfl
      rwa [append_nil] at hlen
    · rintro keys₁ keys₂ rfl
      rw [append_assoc]
      exact h (ch :: keys₁) keys₂ rfl
  · rintro ⟨hfirst, hrest⟩ keys₁ keys₂ hkeys
    cases keys₁ with
    | nil =>
      obtain ⟨rfl, -⟩ := cons.inj hkeys
      rw [append_nil]
      exact hfirst rfl
    | cons k keys₁ =>
      obtain ⟨rfl, rfl⟩ := cons.inj hkeys
      have hlen := hrest keys₁ keys₂ rfl
      rwa [append_assoc] at hlen

/-- Whether a line has a backspace on a full buffer is decidable. -/
instance decidableNoBackspaceOnFull (max : ℕ) :
    ∀ pre keys, Decidable (NoBackspaceOnFull max pre keys)
  | _, [] => isTrue fun _ _ hnil => by simp at hnil
  | pre, ch :: keys =>
    let _ := decidableNoBackspaceOnFull max (pre ++ [ch]) keys
    decidable_of_iff _ noBackspaceOnFull_cons.symm

lemma Holds.line (h : Holds max s (typed pre)) (hkeys : NoBackspaceOnFull max pre keys) :
    ∃ s', keys.foldlM (Finsh.authKey max) s = .ok s' ∧ Holds max s' (typed (pre ++ keys)) := by
  induction keys generalizing s pre with
  | nil => exact ⟨s, rfl, by rwa [append_nil]⟩
  | cons ch keys ih =>
    obtain ⟨hfirst, hrest⟩ := noBackspaceOnFull_cons.mp hkeys
    obtain ⟨s₁, hkey, hs₁⟩ := h.authKey hfirst
    rw [← typed_append_singleton] at hs₁
    obtain ⟨s₂, hkeys₂, hs₂⟩ := ih hs₁ hrest
    rw [append_assoc] at hs₂
    exact ⟨s₂, by rw [foldlM_cons, hkey, ok_bind, hkeys₂], hs₂⟩

lemma Holds.line_full (h : Holds max s (typed pre)) (hmax : 0 < max)
    (hkeys : ¬ NoBackspaceOnFull max pre keys) :
    keys.foldlM (Finsh.authKey max) s = .error .badIndex := by
  induction keys generalizing s pre with
  | nil => exact absurd (fun _ _ hnil => by simp at hnil) hkeys
  | cons ch keys ih =>
    rw [foldlM_cons]
    by_cases hfirst : ch = Finsh.backspace → (typed pre).text.length < max
    · obtain ⟨s₁, hkey, hs₁⟩ := h.authKey hfirst
      rw [← typed_append_singleton] at hs₁
      rw [hkey, ok_bind]
      exact ih hs₁ fun hrest => hkeys (noBackspaceOnFull_cons.mpr ⟨hfirst, hrest⟩)
    · -- the first backspace on a full buffer
      obtain ⟨rfl, hfull⟩ := Classical.not_imp.mp hfirst
      rw [h.backspace_full hmax (not_lt.mp hfull)]
      rfl

/-! ## Line -/

/-- A line is read key by key and compared at its end. A rejected line starts afresh. -/
lemma authLoop_line {enter : UInt8} {rest : List UInt8} (hkeys : ∀ ch ∈ keys, ¬ IsEnter ch)
    (henter : IsEnter enter) :
    authLoop max stored s (keys ++ enter :: rest) = (keys.foldlM (authKey max) s >>= fun s =>
        if rtStrncmp stored s.password max = 0 then .ok (some rest)
        else authLoop max stored .fresh rest) := by
  induction keys generalizing s with
  | nil =>
    rw [nil_append, authLoop, if_pos henter]
    rfl
  | cons ch keys ih =>
    rw [cons_append, authLoop, if_neg (hkeys ch mem_cons_self), foldlM_cons]
    cases authKey max s ch with
    | error f => rfl
    | ok s₁ => exact ih fun c hc => hkeys c (mem_cons_of_mem ch hc)

lemma finshSetPassword_eq_some {old : ℕ → UInt8} (hpassword : 0 ∉ password)
    (hset : finshSetPassword max old password = some stored) :
    finshPasswordMin ≤ password.length ∧ password.length ≤ max ∧
      ∀ i < max, stored i = cstr password i := by
  rw [finshSetPassword] at hset
  split at hset
  case isTrue => exact nomatch hset
  case isFalse hlen =>
    obtain rfl := some.inj hset
    exact ⟨by omega, by omega, fun i hi => rtStrncpy_cstr hpassword hi⟩

section

variable (h : Holds max s t)

include h

lemma Holds.length_shown : (t.shown max).length ≤ max := by
  rw [Typed.shown, length_append, length_take]
  cases hdel : t.deleted with
  | none => simp
  | some c =>
    have hlen := (h.deleted c hdel).1
    simp only [toList_some, length_singleton]
    omega

lemma Holds.zero_not_mem_shown : 0 ∉ t.shown max := by
  intro hmem
  rcases mem_append.mp hmem with hmem | hmem
  · exact h.nonzero (mem_of_mem_take hmem)
  · exact (h.deleted 0 (by simpa using hmem)).2 rfl

lemma Holds.rtStrncmp_iff (hpassword : 0 ∉ password)
    (hlen : password.length ≤ max) (hstored : ∀ i < max, stored i = cstr password i) :
    rtStrncmp stored s.password max = 0 ↔ t.shown max = password := by
  rw [rtStrncmp_congr hstored, h.password, rtStrncmp_cstr hpassword h.zero_not_mem_shown,
    take_of_length_le hlen, take_of_length_le h.length_shown, eq_comm]

lemma Holds.shown_iff (hlen : password.length ≤ max) :
    (t.shown max = password ↔ t.text = password) ↔
      (t.text = password → t.deleted = none) ∧ (∀ c, t.deleted = some c → t.text ++ [c] ≠ password) ∧
        (max < t.text.length → t.text.take max ≠ password) := by
  cases hdel : t.deleted with
  | none =>
    have hshown : t.shown max = t.text.take max := by rw [Typed.shown, hdel]; simp
    rw [hshown]
    constructor
    · intro hiff
      refine ⟨fun _ => rfl, nofun, fun hlong htake => ?_⟩
      rw [hiff.mp htake] at hlong
      omega
    · rintro ⟨-, -, hsurplus⟩
      rcases le_or_gt t.text.length max with hshort | hlong
      · rw [take_of_length_le hshort]
      · exact iff_of_false (hsurplus hlong) fun heq => by rw [heq] at hlong; omega
  | some c =>
    have hroom := (h.deleted c hdel).1
    have hshown : t.shown max = t.text ++ [c] := by
      rw [Typed.shown, hdel, take_of_length_le hroom.le, toList_some]
    rw [hshown]
    have hne : t.text = password → t.text ++ [c] ≠ password := by
      intro heq hshow
      have := congrArg length (hshow.trans heq.symm)
      simp at this
    constructor
    · intro hiff
      refine ⟨fun heq => absurd (hiff.mpr heq) (hne heq), ?_, fun hlong => by omega⟩
      rintro d hd heq
      obtain rfl : c = d := some.inj hd
      exact hne (hiff.mp heq) heq
    · rintro ⟨hkept, hcompleted, -⟩
      exact iff_of_false (hcompleted c rfl) fun heq => nomatch hkept heq

end

/-- The login works for a line iff the line never exceeds the buffer where it matters and does
not end in a backspace that matters. -/
theorem loginOk_iff (old : ℕ → UInt8) (enter : UInt8) (hpassword : 0 ∉ password)
    (hset : finshSetPassword max old password = some stored) (hkeys : ∀ ch ∈ keys, ¬ IsEnter ch)
    (henter : IsEnter enter) :
    LoginOk max stored password keys enter ↔ CleanLine max password keys := by
  obtain ⟨hmin, hlen, hstored⟩ := finshSetPassword_eq_some hpassword hset
  have hmax : 0 < max := by rw [finshPasswordMin] at hmin; omega
  have hset0 : stored 0 ≠ 0 := by
    rw [hstored 0 hmax, cstr_of_lt (by rw [finshPasswordMin] at hmin; omega)]
    exact fun hzero => hpassword (hzero ▸ getElem_mem _)
  have hfresh : Holds max .fresh (typed []) := Holds.fresh max
  rw [LoginOk, finshWaitAuth, if_neg hset0, authLoop_line hkeys henter]
  by_cases hfull : NoBackspaceOnFull max [] keys
  · obtain ⟨s, hline, hs⟩ := hfresh.line hfull
    rw [nil_append] at hs
    -- the line is accepted exactly when the buffer shows the password
    have hresult : (if rtStrncmp stored s.password max = 0 then .ok (some [])
        else authLoop max stored .fresh []) =
          ok (if (typed keys).shown max = password then some [] else none) := by
      rw [if_congr (hs.rtStrncmp_iff hpassword hlen hstored) rfl rfl]
      split <;> rfl
    rw [hline, ok_bind, hresult]
    have hshown := hs.shown_iff hlen
    constructor
    · rintro ⟨result, hok, hiff⟩
      obtain rfl := ok.inj hok
      rw [isSome_ite] at hiff
      obtain ⟨hkept, hcompleted, hsurplus⟩ := hshown.mp hiff
      exact ⟨hfull, hkept, hcompleted, hsurplus⟩
    · rintro ⟨-, hkept, hcompleted, hsurplus⟩
      refine ⟨_, rfl, ?_⟩
      rw [isSome_ite]
      exact hshown.mpr ⟨hkept, hcompleted, hsurplus⟩
  · rw [hfresh.line_full hmax hfull]
    constructor
    · rintro ⟨result, hok, -⟩
      exact nomatch hok
    · exact fun h => absurd h.notFull hfull

/-- The password `rtthread` in a buffer of eight bytes. -/
def rtthread : List UInt8 := [0x72, 0x74, 0x74, 0x68, 0x72, 0x65, 0x61, 0x64]

/-- A typing mistake in the middle of the line is corrected with a backspace. -/
theorem loginOk_corrected : LoginOk 8 (rtStrncpy (fun _ => 0) (cstr rtthread) 8) rtthread
      [0x72, 0x74, 0x78, backspace, 0x74, 0x68, 0x72, 0x65, 0x61, 0x64] 0x0d := by
  refine (loginOk_iff (fun _ => 0) 0x0d (by decide) rfl (by decide +kernel) (by decide)).mpr ?_
  exact ⟨by decide, by decide, nofun, by decide⟩

/-- Three lines that go wrong in a buffer of eight bytes. A ninth character is dropped, so the line is
accepted. A mistake at the end that was deleted still counts, so the line is rejected. A backspace after
eight characters is a store behind the buffer. -/
theorem not_loginOk_limit :
    ¬ LoginOk 8 (rtStrncpy (fun _ => 0) (cstr rtthread) 8) rtthread (rtthread ++ [0x78]) 0x0d ∧
      ¬ LoginOk 8 (rtStrncpy (fun _ => 0) (cstr (rtthread.take 6)) 8) (rtthread.take 6)
          (rtthread.take 6 ++ [0x78, backspace]) 0x0d ∧
        ¬ LoginOk 8 (rtStrncpy (fun _ => 0) (cstr rtthread) 8) rtthread
            (rtthread ++ [backspace, 0x64]) 0x0d := by
  refine ⟨?_, ?_, ?_⟩
  · rintro ⟨result, hresult, hiff⟩
    obtain rfl : some [] = result := ok.inj hresult
    exact absurd (hiff.mp rfl) (by decide)
  · rintro ⟨result, hresult, hiff⟩
    obtain rfl : none = result := ok.inj hresult
    exact absurd (hiff.mpr (by decide)) (by decide)
  · rintro ⟨result, hresult, -⟩
    exact nomatch hresult

end Finsh

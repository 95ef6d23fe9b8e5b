import TempSns.MemHeap.Pending

/-!
# Allocation

`rt_memheap_alloc` walks along the free list to the first block that is large enough, and occupies
it: the block is cut if the rest has room for a header and twelve bytes.
-/

namespace MemHeap

open Tiling Function Word32 Heap

variable {h h' : Heap} {ts pre post : List Tile} {t : Tile} {fs : List ℕ} {size : ℕ}

/-- The fields that no call changes. -/
structure SameRegion (h h' : Heap) : Prop where
  startAddr : h'.startAddr = h.startAddr
  poolSize : h'.poolSize = h.poolSize

lemma SameRegion.refl (h : Heap) : SameRegion h h := ⟨rfl, rfl⟩

lemma SameRegion.trans {h'' : Heap} (hs : SameRegion h h') (hs' : SameRegion h' h'') :
    SameRegion h h'' :=
  ⟨hs'.startAddr.trans hs.startAddr, hs'.poolSize.trans hs.poolSize⟩

/-! ## Aligned size -/

lemma alignedSize_eq (size : ℕ) : alignedSize size = max 12 ((size + 3) % 2 ^ 32 / 4 * 4) := by
  have halign : alignUp size rtAlignSize = (size + 3) % 2 ^ 32 / 4 * 4 :=
    alignUp_two_pow (k := 2)
  unfold alignedSize
  simp only [halign, rtMemheapMinialloc]
  split <;> omega

lemma alignedSize_ge (size : ℕ) : 12 ≤ alignedSize size := by
  rw [alignedSize_eq]
  exact Nat.le_max_left _ _

lemma le_alignedSize {size : ℕ} (hsize : size ≤ 0xfffffffc) : size ≤ alignedSize size := by
  rw [alignedSize_eq]
  omega

lemma alignedSize_idem (size : ℕ) : alignedSize (alignedSize size) = alignedSize size := by
  simp only [alignedSize_eq]
  omega

/-! ## Search -/

def firstOf (h : Heap) (rest : List ℕ) : ℕ := rest.head?.getD h.freeList

lemma next_firstOf {p : ℕ} {done rest : List ℕ} (hring : h.free.Ring h.freeList (done ++ p :: rest)) :
    h.free.next p = firstOf h rest := by
  have hpath := (Links.path_append.mp hring.path).2
  cases rest with
  | nil => exact hpath.1
  | cons q rest => exact hpath.1.1

/-- The search ends, with a block that is large enough, or at the end of the list if there is none. -/
lemma searchFree_spec (l : Layout h ts fs) (size : ℕ) {fuel freeSize : ℕ} (done : List ℕ)
    {rest : List ℕ} (hfs : fs = done ++ rest) (hfuel : rest.length + 2 ≤ fuel) (hlt : freeSize < size) :
    ∃ r, searchFree h size fuel freeSize (firstOf h rest) = .ok r ∧
      ((r.1 < size ∧ ∀ p ∈ rest, h.memitemSize p < size) ∨
        ∃ pre t post, ts = pre ++ t :: post ∧ t.used = false ∧
          r = (t.size - 24, h.startAddr + span pre) ∧ size ≤ t.size - 24) := by
  -- induction on the items that are still to be visited
  induction rest generalizing done fuel freeSize with
  | nil =>
    obtain ⟨fuel, rfl⟩ := Nat.exists_eq_add_of_le' (Nat.le_trans (Nat.le_add_left 1 _) hfuel)
    refine ⟨(freeSize, h.freeList), ?_, Or.inl ⟨hlt, by simp⟩⟩
    have hstop : ¬ (firstOf h [] ≠ h.freeList ∧ freeSize < size) := by simp [firstOf]
    rw [searchFree, if_neg hstop]
    rfl
  | cons p rest ih =>
    obtain ⟨fuel, rfl⟩ := Nat.exists_eq_add_of_le' (Nat.le_trans (Nat.le_add_left 1 _) hfuel)
    have hring := l.freeRing
    rw [hfs] at hring
    have hmem : p ∈ fs := by simp [hfs]
    obtain ⟨pre, t, post, rfl, ht, rfl⟩ := mem_freeStarts.mp ((l.free_iff p).mp hmem)
    have hne : h.startAddr + span pre ≠ h.freeList := by
      intro heq
      have hnd := (List.nodup_cons.mp hring.nodup).1
      simp [heq] at hnd
    have hgo : firstOf h ((h.startAddr + span pre) :: rest) ≠ h.freeList ∧ freeSize < size :=
      ⟨hne, hlt⟩
    rw [searchFree, if_pos hgo]
    simp only [firstOf, List.head?_cons, Option.getD_some, l.memitemSize_eq]
    by_cases hsmall : t.size - 24 < size
    · -- the block is too small
      rw [if_pos hsmall, next_firstOf hring]
      have hfs' : fs = (done ++ [h.startAddr + span pre]) ++ rest := by simp [hfs]
      simp only [List.length_cons] at hfuel
      have hfuel' : rest.length + 2 ≤ fuel := by omega
      obtain ⟨r, hr, hcase⟩ := ih (done ++ [h.startAddr + span pre]) hfs' hfuel' hsmall
      refine ⟨r, hr, hcase.imp_left fun hnone => ⟨hnone.1, ?_⟩⟩
      rintro q (_ | ⟨_, hq⟩)
      · rw [l.memitemSize_eq]
        exact hsmall
      · exact hnone.2 q hq
    · rw [if_neg hsmall]
      obtain ⟨fuel, rfl⟩ := Nat.exists_eq_add_of_le' (show 1 ≤ fuel by simp at hfuel; omega)
      have hstop : ¬ (h.startAddr + span pre ≠ h.freeList ∧ t.size - 24 < size) := by
        intro hgo
        exact hsmall hgo.2
      rw [searchFree, if_neg hstop]
      exact ⟨_, rfl, Or.inr ⟨pre, t, post, rfl, ht, rfl, Nat.le_of_not_lt hsmall⟩⟩

lemma length_le_span (hmin : ∀ t ∈ ts, 24 ≤ t.size) : 24 * ts.length ≤ span ts := by
  induction ts with
  | nil => simp
  | cons t ts ih =>
    have ht := hmin t (by simp)
    have hrest := ih fun x hx => hmin x (by simp [hx])
    simp only [List.length_cons, span_cons]
    omega

lemma length_allStarts (off : ℕ) (ts : List Tile) : (allStarts off ts).length = ts.length := by
  induction ts generalizing off with
  | nil => rfl
  | cons t ts ih => simp [ih]

lemma Layout.length_free (l : Layout h ts fs) : fs.length + 2 ≤ loopFuel := by
  have hnodup := (List.nodup_cons.mp l.freeRing.nodup).2
  have hsub : fs ⊆ allStarts h.startAddr ts := fun p hp =>
    freeStarts_sub_allStarts ((l.free_iff p).mp hp)
  have hlen := (hnodup.subperm hsub).length_le
  have hspan := length_le_span l.min
  have hpool := l.span
  have htop := l.top
  rw [length_allStarts] at hlen
  rw [loopFuel]
  omega

/-! ## Block that was found -/

lemma magicOf_or (used : Bool) : magicOf used ||| rtMemheapUsed = magicOf true := by
  cases used <;> decide

lemma magicOf_and (used : Bool) : magicOf used &&& ~~~rtMemheapUsed = magicOf false := by
  cases used <;> decide

lemma ring_takeFree {p : ℕ} {us vs : List ℕ} (hring : h.free.Ring h.freeList (us ++ p :: vs)) :
    (h.takeFree p).free.Ring h.freeList (us ++ vs) := by
  refine hring.unlink_mem.congr fun x hx => ?_
  have hne : x ≠ p := by
    rintro rfl
    have hnd := hring.nodup
    simp only [List.nodup_cons, List.mem_append, List.mem_cons, List.nodup_append] at hnd hx
    grind
  simp only [takeFree, Links.setNext, Links.setPrev, update_of_ne hne, and_self]

lemma Layout.avail_free (l : Layout h (pre ++ t :: post) fs) (ht : t.used = false) :
    h.availableSize = freeBytes pre + (t.size - 24 + freeBytes post) ∧
      h.availableSize ≤ h.poolSize := by
  have havail := l.avail
  have hle := freeBytes_le (pre ++ t :: post)
  have hspan := l.span
  refine ⟨?_, by omega⟩
  rw [havail, freeBytes_append, freeBytes, ht]
  rfl

/-- The heap after the block `t` was cut or taken whole, before it is marked as used. -/
def takenHeap (h : Heap) (item size : ℕ) (t : Tile) : Heap :=
  if size + 24 + 36 ≤ t.size then
    let h := ((h.cut item (item + (size + 24))).takeFree item).insertFree (item + (size + 24))
    { h with
      availableSize := sub (sub h.availableSize size) rtMemheapSize }.noteUse
  else
    { h with availableSize := sub h.availableSize (t.size - 24) }.noteUse.takeFree item

lemma allocFound_eq (s : Shape h (pre ++ t :: post)) (hsize : size + 24 ≤ t.size) :
    allocFound h size (t.size - 24) (h.startAddr + span pre) = (h.startAddr + span pre + 24,
        ((takenHeap h (h.startAddr + span pre) size t).setMagic (h.startAddr + span pre)
          ((takenHeap h (h.startAddr + span pre) size t).magic (h.startAddr + span pre) |||
            rtMemheapUsed)).release) := by
  obtain ⟨hmin, hsum⟩ := s.bounds
  have htop := s.top
  have hadd : add size rtMemheapSize = size + 24 := by
    rw [rtMemheapSize_eq, add_of_lt (by omega)]
  have hcond : add (size + 24) rtMemheapMinialloc = size + 36 :=
    add_of_lt (show size + 24 + 12 < 2 ^ 32 by omega)
  have hnew := s.newPtr_eq size hsize
  have hptr : add (h.startAddr + span pre) rtMemheapSize = h.startAddr + span pre + 24 := by
    rw [rtMemheapSize_eq, add_of_lt (by omega)]
  unfold MemHeap.allocFound takenHeap
  simp only [hadd, hcond, hnew, hptr]
  by_cases hsplit : size + 24 + 36 ≤ t.size
  · rw [if_pos hsplit, if_pos (by omega : t.size - 24 ≥ size + 36)]
  · rw [if_neg hsplit, if_neg (by omega : ¬ t.size - 24 ≥ size + 36)]

section

variable (l : Layout h (pre ++ t :: post) fs)

include l

/-- The block is marked as used, and the rest of it is in the free list. -/
lemma Layout.takenHeap (ht : t.used = false) (size : ℕ) :
    ∃ fs', Layout ((takenHeap h (h.startAddr + span pre) size t).setMagic (h.startAddr + span pre)
      (magicOf true)).release (pre ++ (occupy 36 (size + 24) t ++ post)) fs' := by
  obtain ⟨hmin, hsum⟩ := l.bounds
  have htop := l.top
  obtain ⟨havail, hpool⟩ := l.avail_free ht
  obtain ⟨us, vs, rfl, hrest⟩ := l.split_free ht
  obtain ⟨hpre, hpost, hends⟩ := coalesced_middle.mp l.coalesced
  have hused := l.toShape.setUsed true
  have hring := ring_takeFree l.freeRing
  unfold MemHeap.takenHeap occupy
  by_cases hsplit : size + 24 + 36 ≤ t.size
  · have hbytes : sub (sub h.availableSize size) rtMemheapSize = freeBytes
        ((pre ++ [⟨size + 24, true⟩]) ++ ⟨t.size - (size + 24), false⟩ :: post) := by
      have hinner : sub h.availableSize size = h.availableSize - size :=
        sub_of_le (by omega) (by omega)
      rw [hinner, rtMemheapSize_eq, sub_of_le (by omega) (by omega), List.append_assoc,
        freeBytes_append, List.singleton_append, freeBytes_used, freeBytes_free]
      omega
    have hshape : Shape ((h.takeFree (h.startAddr + span pre)).setMagic (h.startAddr + span pre)
        (magicOf true)) (pre ++ ⟨t.size, true⟩ :: post) := hused.congr rfl rfl rfl rfl rfl rfl
    have q := hshape.cutPending
      (k := size + 24) l.outside hring hrest hpre hpost (by omega) (by omega)
    -- the source cuts the block before it marks it as used
    have hmagic : update (update h.magic (h.startAddr + span pre + (size + 24))
        rtMemheapMagic) (h.startAddr + span pre) (magicOf true) =
        update (update h.magic (h.startAddr + span pre) (magicOf true))
          (h.startAddr + span pre + (size + 24)) rtMemheapMagic :=
      update_comm (by omega) _ _ _
    have hts : pre ++ ([⟨size + 24, true⟩, ⟨t.size - (size + 24), false⟩] ++ post) =
        (pre ++ [⟨size + 24, true⟩]) ++ ⟨t.size - (size + 24), false⟩ :: post := by simp
    rw [if_pos hsplit, if_pos hsplit, hts]
    simp only [noteUse_eq, cut, setPool, setMagic, takeFree, insertFree]
      at q ⊢
    refine q.insert (by simp [LastUsed]) (hends ht).2 ?_ rfl rfl rfl ?_ hbytes ?_
    · exact q.toShape.congr rfl rfl rfl hmagic rfl rfl
    · simp only [add_span_concat]
    · simp only [use, l.max_eq]
  · have hbytes : sub h.availableSize (t.size - 24) =
        freeBytes (pre ++ ⟨t.size, true⟩ :: post) := by
      rw [sub_of_le (by omega) (by omega), freeBytes_append, freeBytes_used]
      omega
    have hmem : ∀ q, q ∈ us ++ vs ↔ q ∈ freeStarts h.startAddr (pre ++ ⟨t.size, true⟩ :: post) := by
      intro q
      rw [hrest]
      simp
    rw [if_neg hsplit, if_neg hsplit]
    simp only [noteUse_eq, setMagic, takeFree] at hring hused ⊢
    refine ⟨us ++ vs, .of_release ?_ l.outside (coalesced_middle.mpr ⟨hpre, hpost, by simp⟩) hring
      hmem hbytes ?_⟩
    · exact hused.congr rfl rfl rfl rfl rfl rfl
    · simp only [use, l.max_eq]

/-- `rt_memheap_alloc` writes the headers of the new blocks and those of the free list. -/
lemma Layout.takenHeap_kept (ht : t.used = false) (size : ℕ) :
    Kept (IsHeader h (pre ++ (occupy 36 (size + 24) t ++ post))) h
      (MemHeap.takenHeap h (h.startAddr + span pre) size t) := by
  set S := IsHeader h (pre ++ (occupy 36 (size + 24) t ++ post)) with hS
  have hold : ∀ {q}, IsHeader h (pre ++ t :: post) q → S q := fun hq => hq.imp_right cuts_occupy
  have hitem : S (h.startAddr + span pre) := hold (.inr (by simp))
  have hnext : S (h.block.next (h.startAddr + span pre)) :=
    hold (l.toShape.block_links (by simp)).1
  obtain ⟨us, vs, hfs, -⟩ := l.split_free ht
  have hmem : h.startAddr + span pre ∈ fs := by simp [hfs]
  obtain ⟨hfnext, hfprev⟩ := free_links l.freeRing l.free_cuts (.inr hmem)
  unfold MemHeap.takenHeap
  by_cases hsplit : size + 24 + 36 ≤ t.size
  · rw [if_pos hsplit]
    have hnew : S (h.startAddr + span pre + (size + 24)) := by
      refine .inr ?_
      rw [occupy, if_pos hsplit]
      simp
    have htake := ((Kept.refl S h).cut hitem hnew hnext).takeFree hitem (hold hfnext) (hold hfprev)
    -- the list that the rest is put into
    have hring : ((h.cut (h.startAddr + span pre)
        (h.startAddr + span pre + (size + 24))).takeFree (h.startAddr + span pre)).free.Ring
          h.freeList (us ++ vs) := ring_takeFree (hfs ▸ l.freeRing)
    have hfirst := List.mem_cons.mp hring.next_mem
    dsimp only
    rw [noteUse_eq]
    refine (htake.insertFree (.inl rfl) hnew (hold (hfirst.imp_right fun hq => ?_))).counters
    refine l.free_cuts _ ?_
    rw [hfs]
    exact List.mem_append.mpr ((List.mem_append.mp hq).imp_right (List.mem_cons_of_mem _))
  · rw [if_neg hsplit, noteUse_eq]
    exact (Kept.refl S h).counters.takeFree hitem (hold hfnext) (hold hfprev)

/-- What `rt_memheap_alloc` does with the block it has found. -/
lemma Layout.allocFound (ht : t.used = false) (size : ℕ) (hsize : size + 24 ≤ t.size) :
    ∃ h' fs', allocFound h size (t.size - 24) (h.startAddr + span pre) =
        (h.startAddr + span pre + 24, h') ∧ SameRegion h h' ∧
      Layout h' (pre ++ (occupy 36 (size + 24) t ++ post)) fs' ∧
      Kept (IsHeader h (pre ++ (occupy 36 (size + 24) t ++ post))) h h' := by
  have hne : h.startAddr + span pre ≠ h.startAddr + span pre + (size + 24) := by omega
  have hframe : (MemHeap.takenHeap h (h.startAddr + span pre) size t).magic (h.startAddr + span pre) =
      magicOf t.used ∧ SameRegion h (MemHeap.takenHeap h (h.startAddr + span pre) size t) := by
    rw [← l.magic_eq]
    unfold MemHeap.takenHeap
    split
    · simp only [noteUse_eq, cut, setPool, setMagic, takeFree, insertFree,
        update_of_ne hne, true_and]
      exact ⟨rfl, rfl⟩
    · simp only [noteUse_eq, takeFree, true_and]
      exact ⟨rfl, rfl⟩
  obtain ⟨fs', hlayout⟩ := l.takenHeap ht size
  have hkept := l.takenHeap_kept ht size
  have hitem : IsHeader h (pre ++ (occupy 36 (size + 24) t ++ post)) (h.startAddr + span pre) :=
    .inr (cuts_occupy (by simp))
  rw [allocFound_eq l.toShape hsize, hframe.1, magicOf_or]
  generalize MemHeap.takenHeap h (h.startAddr + span pre) size t = taken at hframe hlayout hkept
  exact ⟨_, fs', rfl, ⟨hframe.2.startAddr, hframe.2.poolSize⟩, hlayout,
    (hkept.setMagic hitem _).counters⟩

end

lemma Layout.release_eq (l : Layout h ts fs) : h.release = h := by
  rw [release, Nat.max_eq_left l.use_le]

/-- `rt_memheap_alloc` takes a block that it has found if the counter exceeds the size and a block
fits, else it changes nothing. -/
lemma Layout.rtMemheapAlloc_cases (l : Layout h ts fs) (size : ℕ) :
    (MemHeap.rtMemheapAlloc h size = .ok (rtNull, h) ∧ (alignedSize size < h.availableSize →
          ∀ pre t post, ts = pre ++ t :: post → t.used = false → t.size < alignedSize size + 24)) ∨
      (alignedSize size < h.availableSize ∧
        ∃ pre t post, ts = pre ++ t :: post ∧ t.used = false ∧ alignedSize size + 24 ≤ t.size ∧
          MemHeap.rtMemheapAlloc h size = .ok (MemHeap.allocFound h (alignedSize size)
            (t.size - 24) (h.startAddr + span pre))) := by
  unfold MemHeap.rtMemheapAlloc
  by_cases havail : alignedSize size < h.availableSize
  · have hpos : 0 < alignedSize size := Nat.lt_of_lt_of_le (by decide) (alignedSize_ge size)
    obtain ⟨⟨freeSize, headerPtr⟩, hsearch, hfound⟩ :=
      searchFree_spec l (alignedSize size) [] rfl l.length_free hpos
    have hfirst : h.free.next h.freeList = firstOf h fs := by
      have hpath := l.freeRing.path
      cases fs with
      | nil => exact hpath.1
      | cons q rest => exact hpath.1.1
    rw [← hfirst] at hsearch
    simp only [if_pos havail, hsearch, ok_bind]
    rcases hfound with ⟨hsmall, hnone⟩ | ⟨pre, t, post, rfl, ht, heq, hsize⟩
    · left
      rw [if_neg (Nat.not_le_of_lt hsmall), l.release_eq]
      refine ⟨rfl, fun _ pre t post hts ht => ?_⟩
      subst hts
      have hitem := hnone (h.startAddr + span pre)
        ((l.free_iff _).mpr (mem_freeStarts.mpr ⟨pre, t, post, rfl, ht, rfl⟩))
      rw [l.memitemSize_eq] at hitem
      omega
    · right
      obtain ⟨rfl, rfl⟩ := Prod.mk.inj heq
      rw [if_pos (show t.size - 24 ≥ alignedSize size from hsize)]
      exact ⟨havail, pre, t, post, rfl, ht, by omega, rfl⟩
  · left
    exact ⟨if_neg havail, fun hlt => absurd hlt havail⟩

lemma Layout.rtMemheapAlloc (l : Layout h ts fs) (size : ℕ) :
    ∃ r h', rtMemheapAlloc h size = .ok (r, h') ∧ SameRegion h h' ∧ ((r = rtNull ∧ h' = h) ∨
        ∃ pre t post fs', ts = pre ++ t :: post ∧ t.used = false ∧
          alignedSize size + 24 ≤ t.size ∧ r = h.startAddr + span pre + 24 ∧
          Layout h' (pre ++ (occupy 36 (alignedSize size + 24) t ++ post)) fs' ∧
          Kept (IsHeader h (pre ++ (occupy 36 (alignedSize size + 24) t ++ post))) h h') := by
  rcases l.rtMemheapAlloc_cases size with ⟨hnull, -⟩ | ⟨-, pre, t, post, rfl, ht, hsize, hok⟩
  · exact ⟨rtNull, h, hnull, .refl h, Or.inl ⟨rfl, rfl⟩⟩
  · obtain ⟨h', fs', hfound, hsame, hres⟩ := l.allocFound ht (alignedSize size) hsize
    rw [hfound] at hok
    exact ⟨_, h', hok, hsame, Or.inr ⟨pre, t, post, fs', rfl, ht, hsize, rfl, hres⟩⟩

end MemHeap

import TempSns.SmallMem.Layout

/-!
# Merging free blocks

`plug_holes` combines a free block with the free blocks next to it. Each half either fuses two
neighbouring tiles or leaves the heap as it is; the cursor `lfree` follows when the block it
points to disappears. `plugHoles_spec` puts the halves together: the call returns, the result is
coalesced again, and no used block has moved.
-/

namespace SmallMem

open ByteMem Tiling

variable {h h' h'' : Heap} {t c a b : Tile} {pre post ts ts' ts'' : List Tile}

/-! ## Fusing two blocks -/

/-- What `plug_holes` and each of its halves keep. -/
structure Merged (h : Heap) (ts : List Tile) (h' : Heap) (ts' : List Tile) : Prop where
  shape : Shape h' ts'
  fuse : Fuse ts ts'
  same : SameRegion h h'
  headers : HeadersOnly (cuts 0 ts) h.mem h'.mem
  stats : h'.usedMem = h.usedMem ∧ h'.maxMem = h.maxMem

lemma Merged.refl (s : Shape h ts) : Merged h ts h ts :=
  ⟨s, .refl ts, .refl h, .refl _ _, rfl, rfl⟩

lemma Merged.trans (m : Merged h ts h' ts') (m' : Merged h' ts' h'' ts'') :
    Merged h ts h'' ts'' :=
  ⟨m'.shape, m.fuse.trans m'.fuse, m.same.trans m'.same,
    m.headers.trans (m'.headers.mono m.fuse.cuts_subset), m'.stats.1.trans m.stats.1,
    m'.stats.2.trans m.stats.2⟩

lemma Merged.counted (m : Merged h ts h' ts') : Counted h ts h' ts' := fun hused => by
  rw [m.stats.1, m.fuse.usedSpan_eq, hused]

/-- The heap after the block at `p` has taken in the block at `q`, which goes up to `e`. -/
def fused (h : Heap) (p q e : ℕ) : Heap :=
  { h with
    lfree := if h.lfree = q then p else h.lfree
    mem := setPrev (setNext h.mem p e) e p }

/-- The free blocks before the fusion of two of them. -/
private lemma mem_freeStarts_fuse (ha : a.used = false) (hb : b.used = false) {q : ℕ} :
    q ∈ freeStarts 0 (pre ++ a :: b :: post) ↔
      q = span pre + a.size ∨ q ∈ freeStarts 0 (pre ++ ⟨a.size + b.size, false⟩ :: post) := by
  simp only [freeStarts_append, List.mem_append, mem_freeStarts_cons, ha, hb, Nat.zero_add,
    Nat.add_assoc]
  tauto

lemma merged_fused (s : Shape h (pre ++ a :: b :: post)) (ha : a.used = false)
    (hb : b.used = false) :
    Merged h (pre ++ a :: b :: post)
      (fused h (span pre) (span pre + a.size) (span pre + a.size + b.size))
      (pre ++ ⟨a.size + b.size, false⟩ :: post) := by
  have htop := s.top
  refine ⟨⟨?_, s.end_eq, s.capacity, s.top, s.ptr_aligned, ?_⟩, .step ha hb (.refl _),
    ⟨rfl, rfl, rfl⟩, ?_, rfl, rfl⟩
  · have hwalk := s.walk.fuse (by omega)
    rw [ha] at hwalk
    exact hwalk
  · -- the cursor follows when the block it is on disappears
    change (if _ then _ else _) ∈ _ ∨ (if _ then _ else _) = h.heapEnd
    split
    case isTrue => left; simp
    case isFalse hne =>
      exact s.lfree_free.imp_left fun hmem => ((mem_freeStarts_fuse ha hb).mp hmem).resolve_left hne
  · exact (HeadersOnly.of_agreeOff setNext_agreeOff (by simp)).trans
      (.of_agreeOff setPrev_agreeOff (by simp [Nat.add_assoc]))

lemma fused_lowest {e : ℕ} (ha : a.used = false) (hb : b.used = false)
    (hlow : ∀ q ∈ freeStarts 0 (pre ++ a :: b :: post),
      h.lfree ≤ q ∨ (q = span pre ∧ h.lfree = span pre + a.size)) :
    Lowest (fused h (span pre) (span pre + a.size) e)
      (pre ++ ⟨a.size + b.size, false⟩ :: post) := by
  intro q hq
  have hcase := hlow q ((mem_freeStarts_fuse ha hb).mpr (.inr hq))
  change (if h.lfree = span pre + a.size then span pre else h.lfree) ≤ q
  split <;> omega

/-- The headers of two neighbouring blocks, and the second one after a store to the first one. -/
lemma Shape.neighbours (s : Shape h (pre ++ a :: b :: post)) :
    header h.mem (span pre) = ⟨heapMagic, a.used.toNat, span pre + a.size, lastStart 0 0 pre⟩ ∧
      header h.mem (span pre + a.size) =
        ⟨heapMagic, b.used.toNat, span pre + a.size + b.size, span pre⟩ ∧
      (∀ n, header (setNext h.mem (span pre) n) (span pre + a.size) =
        ⟨heapMagic, b.used.toNat, span pre + a.size + b.size, span pre⟩) ∧
      span pre < span pre + a.size ∧ span pre + a.size < h.heapEnd := by
  have hblocka := s.walk.block
  have hblockb : Block h.mem (span pre) (span pre + a.size) b := by
    have h' : Shape h ((pre ++ [a]) ++ b :: post) := by simpa using s
    simpa [lastStart_concat] using h'.walk.block
  have hsa := hblocka.min_size
  have hsb := hblockb.min_size
  have hreach := s.walk.reaches
  simp only [Nat.zero_add, span_append, span_cons] at hblocka hreach
  refine ⟨hblocka.header_eq, hblockb.header_eq, fun n => ?_, by omega, by omega⟩
  rw [header_of_agreeOff setNext_agreeOff (by omega), hblockb.header_eq]

/-! ## Halves of `plug_holes` -/

/-- What the forward half of `plug_holes` stores in front of a free successor. -/
lemma plugForward_eq (s : Shape h (pre ++ t :: c :: post)) (hc : c.used = false) :
    plugForward h (span pre) =
      fused h (span pre) (span pre + t.size) (span pre + t.size + c.size) := by
  obtain ⟨hheadt, hheadc, hheadc', hlt, hend⟩ := s.neighbours
  -- the branch is taken: the successor is free, and it is not the end block
  have hcond : span pre ≠ span pre + t.size ∧ c.used.toNat = 0 ∧ span pre + t.size ≠ h.heapEnd := by
    rw [hc]
    exact ⟨hlt.ne, rfl, hend.ne⟩
  unfold plugForward
  simp only [hheadt, hheadc, hheadc', if_pos hcond]
  rfl

/-- The forward half of `plug_holes` does nothing in front of a used block or the end block. -/
lemma plugForward_used (s : Shape h (pre ++ t :: post)) (hpost : HeadUsed post) :
    plugForward h (span pre) = h := by
  obtain ⟨hblock, hrest⟩ := walk_cons.mp (walk_append.mp s.walk).2
  simp only [Nat.zero_add] at hblock hrest
  unfold plugForward
  rw [hblock.header_eq]
  refine if_neg fun hcond => ?_
  obtain ⟨x, hx, hfree⟩ := hrest.head_used.mp hcond.2.1
  simp [hpost x hx] at hfree

/-- What the backward half of `plug_holes` stores behind a free predecessor. -/
lemma plugBackward_eq (s : Shape h (pre ++ c :: t :: post)) (hc : c.used = false) :
    plugBackward h (span pre + c.size) =
      fused h (span pre) (span pre + c.size) (span pre + c.size + t.size) := by
  obtain ⟨hheadc, hheadt, hheadt', hlt, -⟩ := s.neighbours
  have hcond : span pre ≠ span pre + c.size ∧ c.used.toNat = 0 := by
    rw [hc]
    exact ⟨hlt.ne, rfl⟩
  unfold plugBackward
  simp only [hheadt, hheadc, hheadt', if_pos hcond]
  rfl

/-- The backward half of `plug_holes` does nothing after a used block, nor at the first block,
which is its own predecessor. -/
lemma plugBackward_used (s : Shape h (pre ++ t :: post)) (hpre : LastUsed pre) :
    plugBackward h (span pre) = h := by
  have hblock := s.walk.block
  rw [Nat.zero_add] at hblock
  unfold plugBackward
  rw [hblock.header_eq]
  refine if_neg fun hcond => ?_
  rcases List.eq_nil_or_concat' pre with rfl | ⟨pre', c, rfl⟩
  · simp at hcond
  · have hblockc : Block h.mem (lastStart 0 0 pre') (span pre') c := by
      have h' : Shape h (pre' ++ c :: t :: post) := by simpa using s
      simpa using h'.walk.block
    have hused : c.used = true := hpre c (by simp)
    simp [lastStart_concat, hblockc.header_eq, hused] at hcond

/-- Where `lfree` may stand for `plug_holes` to leave it on the lowest free block: not above any
free block, except that it may be on the successor that the free block at `span pre` takes in. -/
def LowestBut (h : Heap) (pre : List Tile) (t : Tile) (post : List Tile) : Prop :=
  ∀ q ∈ freeStarts 0 (pre ++ t :: post), h.lfree ≤ q ∨
    (q = span pre ∧ h.lfree = span pre + t.size ∧ ∃ c ∈ post.head?, c.used = false)

/-- The forward half in one statement: afterwards the successor is used. -/
lemma plugForward_spec (s : Shape h (pre ++ t :: post)) (ht : t.used = false)
    (hpost : Coalesced post) :
    ∃ t' post', Merged h (pre ++ t :: post) (plugForward h (span pre)) (pre ++ t' :: post') ∧
      t'.used = false ∧ Coalesced post' ∧ HeadUsed post' ∧
      (LowestBut h pre t post → Lowest (plugForward h (span pre)) (pre ++ t' :: post')) := by
  by_cases hhead : HeadUsed post
  · rw [plugForward_used s hhead]
    refine ⟨t, post, .refl s, ht, hpost, hhead, fun hlow q hq => ?_⟩
    rcases hlow q hq with hle | ⟨-, -, c, hc, hfree⟩
    · exact hle
    · simp [hhead c hc] at hfree
  · obtain ⟨c, post', rfl, hc⟩ := exists_of_not_headUsed hhead
    obtain ⟨hpost', hhead'⟩ := coalesced_cons.mp hpost
    rw [plugForward_eq s hc]
    exact ⟨_, post', merged_fused s ht hc, rfl, hpost', hhead' hc, fun hlow =>
      fused_lowest ht hc fun q hq => (hlow q hq).imp_right fun h => ⟨h.1, h.2.1⟩⟩

/-- `plug_holes` at a free block whose neighbourhoods are coalesced: it returns, the heap is
coalesced, and the used blocks are where they were. -/
lemma plugHoles_spec (s : Shape h (pre ++ t :: post)) (ht : t.used = false)
    (hpre : Coalesced pre) (hpost : Coalesced post) :
    ∃ h' ts', plugHoles h (span pre) = .ok h' ∧ Merged h (pre ++ t :: post) h' ts' ∧
      Coalesced ts' ∧ (LowestBut h pre t post → Lowest h' ts') := by
  have hblock := s.walk.block
  have hcut := s.cut_le
  have hsize := hblock.min_size
  have hassert : span pre < h.heapEnd ∧ (header h.mem (span pre)).used = 0 := by
    rw [Nat.zero_add] at hblock
    rw [hblock.header_eq, ht]
    simp only [span_cons] at hcut
    exact ⟨by omega, rfl⟩
  obtain ⟨t', post', hmerged, ht', hpost', hhead, hlow⟩ := plugForward_spec s ht hpost
  rw [plugHoles, if_pos hassert]
  by_cases hlast : LastUsed pre
  · rw [plugBackward_used hmerged.shape hlast]
    exact ⟨_, _, rfl, hmerged, coalesced_middle.mpr ⟨hpre, hpost', fun _ => ⟨hlast, hhead⟩⟩, hlow⟩
  · obtain ⟨pre', c, rfl, hc⟩ := exists_of_not_lastUsed hlast
    obtain ⟨hpre', -, hlast'⟩ := coalesced_middle.mp hpre
    have hspan : span (pre' ++ [c]) = span pre' + c.size := by simp
    simp only [List.append_assoc, List.singleton_append, hspan] at hmerged hlow ⊢
    rw [plugBackward_eq hmerged.shape hc]
    exact ⟨_, _, rfl, hmerged.trans (merged_fused hmerged.shape hc ht'),
      coalesced_middle.mpr ⟨hpre', hpost', fun _ => ⟨(hlast' hc).1, hhead⟩⟩,
      fun hl => fused_lowest hc ht' fun q hq => .inl (hlow hl q hq)⟩

end SmallMem

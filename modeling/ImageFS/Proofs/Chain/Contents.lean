import ImageFS.Contents
import ImageFS.Proofs.Chain.Resizing

/-!
# Reading and writing the contents of a chain

The contents of a chain are its bytes up to its size. Cutting a range at the block boundaries and
reading or writing its pieces one by one is reading or writing that range of the contents.
-/

set_option autoImplicit false

namespace ImageFS

/-- The bytes cut off behind `n`, or filled up to `n` with zeros. -/
def fitTo (n : Nat) (bytes : ByteArray) : ByteArray := bytes.extract 0 n ++ zeros (n - bytes.size)

theorem size_fitTo (n : Nat) (bytes : ByteArray) : (fitTo n bytes).size = n := by
  rw [fitTo, ByteArray.size_append, ByteArray.size_extract, size_zeros]
  omega

theorem byteAt_fitTo (n : Nat) (bytes : ByteArray) {i : Nat} (hi : i < n) :
    byteAt (fitTo n bytes) i = byteAt bytes i := by
  rw [fitTo, byteAt_append, byteAt_extract, ByteArray.size_extract, byteAt_zeros]
  by_cases h : i < bytes.size
  · rw [if_pos (by omega), if_pos (by omega), Nat.zero_add]
  · rw [if_neg (by omega), byteAt_of_size_le (Nat.le_of_not_lt h)]

namespace Chain

open Volume Holding

variable {c c' : Chain} {v w u : Volume} {m m' : Memory} {offset stop b n k : Nat} {data : ByteArray}

def contents (c : Chain) (m : Memory) : ByteArray := ((List.range c.size.toNat).map (c.byte m)).toByteArray

theorem size_contents (c : Chain) (m : Memory) : (c.contents m).size = c.size.toNat := by
  simp [contents]

theorem byteAt_contents (c : Chain) (m : Memory) (hk : k < c.size.toNat) : byteAt (c.contents m) k = c.byte m k := by
  rw [contents, byteAt_toByteArray, List.getD_eq_getElem?_getD, List.getElem?_map, List.getElem?_range hk]
  rfl

theorem contents_empty (m : Memory) : empty.contents m = .empty := rfl

theorem contents_congr (size : c'.size = c.size) (h : ∀ k < c.size.toNat, c'.byte m' k = c.byte m k) :
    c'.contents m' = c.contents m := by
  refine eq_of_byteAt ?_ fun k hk => ?_
  · rw [size_contents, size_contents, size]
  · rw [size_contents, size] at hk
    rw [byteAt_contents c' m' (size ▸ hk), byteAt_contents c m hk, h k hk]

theorem extract_block {first last : Nat} (hfirst : b * blockSize ≤ first) (hlast : last ≤ (b + 1) * blockSize)
    (hsize : last ≤ c.size.toNat) :
    (m (c.pointer m (.data b))).bytes.extract (first - b * blockSize) (last - b * blockSize) =
      (c.contents m).extract first last := by
  have hblock := (m (c.pointer m (.data b))).size_bytes
  simp only [blockSize] at *
  refine eq_of_byteAt ?_ fun i hi => ?_
  · rw [ByteArray.size_extract, ByteArray.size_extract, size_contents, hblock]
    omega
  · rw [ByteArray.size_extract, hblock] at hi
    rw [byteAt_extract, byteAt_extract, if_pos (by omega), if_pos (by omega), byteAt_contents c m (by omega), byte]
    have hdiv : (first + i) / 1024 = b := by omega
    have hmod : (first + i) % 1024 = first - b * 1024 + i := by omega
    rw [hdiv, hmod]
    rfl

def covered (offset stop b : Nat) : Nat := max offset (min stop (b * blockSize))

theorem inBlock_eq (hb : offset < (b + 1) * blockSize) (hlow : b * blockSize < stop) (hos : offset ≤ stop) :
    Span.inBlock offset stop b =
      { block := b, start := covered offset stop b - b * blockSize, position := covered offset stop b - offset,
        length := covered offset stop (b + 1) - covered offset stop b } := by
  have hB : blockSize = 1024 := rfl
  have hfirst : max offset (b * blockSize) = covered offset stop b := by
    rw [covered, Nat.min_eq_right (Nat.le_of_lt hlow)]
  have hlast : min stop ((b + 1) * blockSize) = covered offset stop (b + 1) := by
    rw [covered]
    rw [hB] at hb ⊢
    omega
  rw [Span.inBlock, hfirst, hlast]

theorem covered_bounds (hb : offset < (b + 1) * blockSize) (hlow : b * blockSize < stop) (hos : offset ≤ stop) :
    b * blockSize ≤ covered offset stop b ∧ covered offset stop b ≤ covered offset stop (b + 1) ∧
      covered offset stop (b + 1) ≤ (b + 1) * blockSize ∧ covered offset stop (b + 1) ≤ stop := by
  have hB : blockSize = 1024 := rfl
  unfold covered
  rw [hB] at hb hlow ⊢
  omega

theorem covered_mono (offset stop : Nat) {a b : Nat} (h : a ≤ b) : covered offset stop a ≤ covered offset stop b := by
  have := Nat.mul_le_mul_right blockSize h
  unfold covered
  omega

theorem extract_inBlock (hos : offset ≤ stop) (hstop : stop ≤ c.size.toNat) (hb : offset < (b + 1) * blockSize)
    (hlow : b * blockSize < stop) :
    (m (c.pointer m (.data b))).bytes.extract (Span.inBlock offset stop b).start
        ((Span.inBlock offset stop b).start + (Span.inBlock offset stop b).length) =
      (c.contents m).extract (covered offset stop b) (covered offset stop (b + 1)) := by
  obtain ⟨hstart, hmono, hend, hle⟩ := covered_bounds hb hlow hos
  have hlength : covered offset stop b - b * blockSize + (covered offset stop (b + 1) - covered offset stop b) =
      covered offset stop (b + 1) - b * blockSize := by
    omega
  rw [inBlock_eq hb hlow hos]
  dsimp only
  rw [hlength, extract_block hstart hend (Nat.le_trans hle hstop)]

/-- The pieces of a range from block `b` on, one for each block in front of block `last`. -/
inductive Pieces (offset stop last : Nat) : Nat → List Span → Prop
  | none : Pieces offset stop last last []
  | next {b : Nat} {l : List Span} (hb : offset < (b + 1) * blockSize) (hlow : b * blockSize < stop)
      (rest : Pieces offset stop last (b + 1) l) : Pieces offset stop last b (Span.inBlock offset stop b :: l)

theorem Pieces.le {last : Nat} {l : List Span} (p : Pieces offset stop last b l) : b ≤ last := by
  induction p with
  | none => exact Nat.le_refl _
  | next _ _ _ ih => exact Nat.le_of_succ_le ih

theorem pieces_range' (n b : Nat) (hb : offset < (b + 1) * blockSize) (hn : n = 0 ∨ (b + n) * blockSize < stop + blockSize) :
    Pieces offset stop (b + n) b ((List.range' b n).map (Span.inBlock offset stop)) := by
  have hB : blockSize = 1024 := rfl
  induction n generalizing b with
  | zero => exact .none
  | succ n ih =>
    have hcount : b + 1 + n = b + (n + 1) := Nat.add_right_comm b 1 n
    have hlow : b * blockSize < stop := by
      rw [hB] at hn ⊢
      omega
    have rest := ih (b + 1) (Nat.lt_of_lt_of_le hb (Nat.mul_le_mul_right _ (Nat.le_succ _)))
      (.inr (hcount ▸ hn.resolve_left (Nat.succ_ne_zero n)))
    rw [hcount] at rest
    rw [List.range'_succ, List.map_cons]
    exact .next hb hlow rest

theorem pieces_ofRange (offset length : Nat) : ∃ b last, Pieces offset (offset + length) last b (Span.ofRange offset length) ∧
    covered offset (offset + length) b = offset ∧ covered offset (offset + length) last = offset + length := by
  have hB : blockSize = 1024 := rfl
  by_cases hzero : length = 0
  · have hnone : covered offset (offset + length) 0 = offset := by
      unfold covered
      omega
    rw [Span.ofRange, if_pos hzero]
    exact ⟨0, 0, .none, hnone, by rw [hnone, hzero, Nat.add_zero]⟩
  · rw [Span.ofRange, if_neg hzero]
    refine ⟨_, _, pieces_range' _ _ ?_ (.inr ?_), ?_, ?_⟩
    all_goals
      simp only [covered, ceilDiv, hB]
      omega

/-- Every block of the chain is found and can be read. -/
structure Mapped (c : Chain) (v : Volume) : Prop where
  found : ∀ k < c.blockCount, c.blockAt v k = .ok (c.pointer v.cell (.data k))
  reads : ∀ k < c.blockCount, v.readBlock (c.pointer v.cell (.data k)) = .ok (v.cell (c.pointer v.cell (.data k)))

theorem Held.mapped (h : c.Held v) (hv : v.Sound) : c.Mapped v :=
  ⟨fun _ hk => blockAt_eq h hv hk, fun _ hk => readBlock_eq hv (h.isData hk).2⟩

theorem lt_blockCount_of_lt (hlow : b * blockSize < stop) (hstop : stop ≤ c.size.toNat) : b < c.blockCount :=
  Nat.lt_of_mul_lt_mul_right (Nat.lt_of_lt_of_le hlow (Nat.le_trans hstop c.le_blockCount))

/-- Reading more pieces goes on with what has been read of the range, which is as far as the blocks before cover it. -/
theorem read_pieces (h : c.Mapped v) (hos : offset ≤ stop) (hstop : stop ≤ c.size.toNat) {last : Nat} {l : List Span}
    (p : Pieces offset stop last b l) :
    l.foldlM (fun found s => do
        let block ← v.readBlock (← c.blockAt v s.block)
        return found ++ block.bytes.extract s.start (s.start + s.length))
        ((c.contents v.cell).extract offset (covered offset stop b)) =
      (.ok ((c.contents v.cell).extract offset (covered offset stop last)) : Except Error ByteArray) := by
  induction p with
  | none => rfl
  | @next b l hb hlow rest hrest =>
    have hin := lt_blockCount_of_lt hlow hstop
    have hfound : c.blockAt v (Span.inBlock offset stop b).block = .ok (c.pointer v.cell (.data b)) := h.found b hin
    have hjoin : (c.contents v.cell).extract offset (covered offset stop b) ++
        (c.contents v.cell).extract (covered offset stop b) (covered offset stop (b + 1)) =
        (c.contents v.cell).extract offset (covered offset stop (b + 1)) := by
      have hfirst : offset ≤ covered offset stop b := Nat.le_max_left _ _
      rw [ByteArray.extract_append_extract, Nat.min_eq_left hfirst, Nat.max_eq_right (covered_mono _ _ (Nat.le_succ b))]
    rw [List.foldlM_cons]
    simp only [hfound, h.reads b hin, bind, Except.bind, pure, Except.pure]
    rw [extract_inBlock hos hstop hb hlow, hjoin]
    exact hrest

theorem Mapped.bytesAt (h : c.Mapped v) (offset length : Nat) :
    c.bytesAt v offset length = .ok ((c.contents v.cell).extract offset (min (offset + length) c.size.toNat)) := by
  by_cases hin : offset ≤ c.size.toNat
  · have hstop : offset + min length (c.size.toNat - offset) = min (offset + length) c.size.toNat := by omega
    obtain ⟨b, last, pieces, hfirst, hlast⟩ := pieces_ofRange offset (min length (c.size.toNat - offset))
    have hread := read_pieces h (Nat.le_add_right _ _) (hstop ▸ Nat.min_le_right _ _) pieces
    have hnothing : (c.contents v.cell).extract offset offset = .empty :=
      ByteArray.extract_eq_empty_iff.mpr (Nat.min_le_left _ _)
    rw [hfirst, hlast, hnothing, hstop] at hread
    exact hread
  · have hzero : min length (c.size.toNat - offset) = 0 := by omega
    have hempty : (c.contents v.cell).extract offset (min (offset + length) c.size.toNat) = .empty :=
      ByteArray.extract_eq_empty_iff.mpr (by rw [size_contents]; omega)
    rw [Chain.bytesAt, hzero, hempty]
    rfl

theorem bytesAt_eq (h : c.Held v) (hv : v.Sound) (offset length : Nat) :
    c.bytesAt v offset length = .ok ((c.contents v.cell).extract offset (min (offset + length) c.size.toNat)) :=
  (h.mapped hv).bytesAt offset length

theorem storeSpan_eq (data : ByteArray) (h : c.Held v) (hv : v.Sound) {s : Span} (hs : s.block < c.blockCount)
    (hdata : s.position + s.length ≤ data.size) (hfit : s.start + s.length ≤ blockSize) :
    ∃ block : Block, c.storeSpan data s v = .ok () (v.put (c.pointer v.cell (.data s.block)) block) ∧
      ∀ i < blockSize, block.byte i =
        if s.start ≤ i ∧ i < s.start + s.length then byteAt data (s.position + (i - s.start))
        else (v.cell (c.pointer v.cell (.data s.block))).byte i := by
  have hask : ask (fun v => c.blockAt v s.block) v = .ok (c.pointer v.cell (.data s.block)) v :=
    ask_of_ok (blockAt_eq h hv hs)
  have hpiece : (data.extract s.position (s.position + s.length)).size = s.length := by
    rw [ByteArray.size_extract]
    omega
  have hbyte : ∀ i, s.start ≤ i → i < s.start + s.length →
      byteAt (data.extract s.position (s.position + s.length)) (i - s.start) =
        byteAt data (s.position + (i - s.start)) := by
    intro i hlow hhigh
    rw [byteAt_extract, if_pos (by omega)]
  by_cases hwhole : s.length = blockSize
  · have hstart : s.start = 0 := by omega
    refine ⟨Block.zero.patch 0 (data.extract s.position (s.position + s.length)), ?_, fun i hi => ?_⟩
    · rw [storeSpan, bind_of_ok hask, if_pos hwhole, writeBlock_eq hv (h.isData hs).2]
    · rw [Block.byte_patch _ (by omega), hpiece, if_pos ⟨by omega, by omega⟩, if_pos ⟨by omega, by omega⟩,
        ← hbyte i (by omega) (by omega), hstart]
  · refine ⟨(v.cell (c.pointer v.cell (.data s.block))).patch s.start
      (data.extract s.position (s.position + s.length)), ?_, fun i _ => ?_⟩
    · rw [storeSpan, bind_of_ok hask, if_neg hwhole, updateBlock_eq hv (h.isData hs).2]
    · rw [Block.byte_patch _ (by omega), hpiece]
      by_cases hin : s.start ≤ i ∧ i < s.start + s.length
      · rw [if_pos hin, if_pos hin, hbyte i hin.1 hin.2]
      · rw [if_neg hin, if_neg hin]

theorem ite_cover {α : Type} {p q r j : Nat} (hpq : p ≤ q) (hqr : q ≤ r) {x y : α} :
    (if q ≤ j ∧ j < r then x else if p ≤ j ∧ j < q then x else y) = if p ≤ j ∧ j < r then x else y := by
  split_ifs <;> first | rfl | omega

theorem store_block (h : c.Held v) (hv : v.Sound) (hstop : offset + data.size ≤ c.size.toNat)
    (hb : offset < (b + 1) * blockSize) (hlow : b * blockSize < offset + data.size) :
    ∃ w, c.storeSpan data (Span.inBlock offset (offset + data.size) b) v = .ok () w ∧ Stored c v w ∧
      ∀ j, j / blockSize < c.blockCount → c.byte w.cell j =
        if covered offset (offset + data.size) b ≤ j ∧ j < covered offset (offset + data.size) (b + 1) then
          byteAt data (j - offset)
        else c.byte v.cell j := by
  have hos : offset ≤ offset + data.size := Nat.le_add_right _ _
  have hin := lt_blockCount_of_lt hlow hstop
  obtain ⟨hstart, hmono, hend, hle⟩ := covered_bounds hb hlow hos
  have hfirst : offset ≤ covered offset (offset + data.size) b := Nat.le_max_left _ _
  have hnext : (b + 1) * blockSize = b * blockSize + blockSize := Nat.succ_mul b blockSize
  have hspan := inBlock_eq hb hlow hos
  obtain ⟨block, hrun, hblock⟩ := storeSpan_eq data h hv (s := Span.inBlock offset (offset + data.size) b) hin
    (by rw [hspan]; dsimp only; omega) (by rw [hspan]; dsimp only; omega)
  rw [hspan] at hblock
  refine ⟨_, hrun, h.stored_put hv hin block, fun j hj => ?_⟩
  have hplace : j / blockSize * blockSize + j % blockSize = j := Nat.div_add_mod' j blockSize
  have hmod : j % blockSize < blockSize := Nat.mod_lt _ (by decide)
  change c.byte (v.put (c.pointer v.cell (.data b)) block).cell j = _
  rw [h.byte_put hv hin block j hj]
  -- A byte of another block lies in front of the piece or behind it.
  by_cases hjb : j / blockSize = b
  · rw [hjb] at hplace
    rw [if_pos hjb, hblock _ hmod, byte, hjb]
    dsimp only
    split_ifs with hleft hright hright
    · exact congrArg _ (by omega)
    · omega
    · omega
    · rfl
  · rw [if_neg hjb, if_neg]
    rcases Nat.lt_or_gt_of_ne hjb with hlt | hgt
    · have hbefore := Nat.mul_le_mul_right blockSize (Nat.succ_le_of_lt hlt)
      rw [Nat.succ_mul] at hbefore
      omega
    · have hbehind := Nat.mul_le_mul_right blockSize (Nat.succ_le_of_lt hgt)
      rw [Nat.succ_mul] at hbehind
      omega

theorem store_pieces (h : c.Held v) (hv : v.Sound) (hstop : offset + data.size ≤ c.size.toNat) {last : Nat} {l : List Span}
    (p : Pieces offset (offset + data.size) last b l) :
    ∃ w, l.forM (c.storeSpan data) v = .ok () w ∧ Stored c v w ∧ ∀ j, j / blockSize < c.blockCount → c.byte w.cell j =
      if covered offset (offset + data.size) b ≤ j ∧ j < covered offset (offset + data.size) last then
        byteAt data (j - offset)
      else c.byte v.cell j := by
  induction p generalizing v with
  | none =>
    refine ⟨v, rfl, .refl hv, fun j _ => ?_⟩
    rw [if_neg]
    omega
  | @next b l hb hlow rest ih =>
    obtain ⟨x, hrun, stored, hbytes⟩ := store_block h hv hstop hb hlow
    obtain ⟨w, hrest, stored', hbytes'⟩ := ih (stored.held h) stored.evolves.sound
    refine ⟨w, (bind_of_ok hrun).trans hrest, stored.trans h stored', fun j hj => ?_⟩
    rw [hbytes' j hj, hbytes j hj, ite_cover (covered_mono _ _ (Nat.le_succ b)) (covered_mono _ _ rest.le)]

theorem store_ok (h : c.Held v) (hv : v.Sound) (hstop : offset + data.size ≤ c.size.toNat) :
    ∃ w, c.store offset data v = .ok () w ∧ Stored c v w ∧ ∀ j, j / blockSize < c.blockCount →
      c.byte w.cell j = if offset ≤ j ∧ j < offset + data.size then byteAt data (j - offset) else c.byte v.cell j := by
  obtain ⟨b, last, pieces, hfirst, hlast⟩ := pieces_ofRange offset data.size
  have hstore := store_pieces h hv hstop pieces
  rw [hfirst, hlast] at hstore
  exact hstore

theorem Resized.contents {size : Nat} (r : Resized c v size c' u) :
    c'.contents u.cell = fitTo size (c.contents v.cell) := by
  refine eq_of_byteAt ?_ fun k hk => ?_
  · rw [size_contents, size_fitTo, r.length]
  · rw [size_contents, r.length] at hk
    rw [byteAt_contents c' u.cell (r.length.symm ▸ hk), r.bytes k hk, byteAt_fitTo _ _ hk]
    by_cases hold : k < c.size.toNat
    · rw [if_pos hold, byteAt_contents c v.cell hold]
    · rw [if_neg hold, byteAt_of_size_le]
      rw [size_contents]
      exact Nat.le_of_not_lt hold

theorem Kept.contents (k : Kept c v u) : c.contents u.cell = c.contents v.cell := contents_congr rfl k.bytes

theorem contents_of_stored (hstop : offset + data.size ≤ c.size.toNat)
    (bytes : ∀ j, j / blockSize < c.blockCount →
      c.byte w.cell j = if offset ≤ j ∧ j < offset + data.size then byteAt data (j - offset) else c.byte v.cell j) :
    c.contents w.cell = overwrite (c.contents v.cell) offset data := by
  have hfit : offset + data.size ≤ (c.contents v.cell).size := by
    rw [size_contents]
    exact hstop
  refine eq_of_byteAt ?_ fun k hk => ?_
  · rw [size_overwrite hfit, size_contents, size_contents]
  · rw [size_contents] at hk
    rw [byteAt_overwrite hfit, byteAt_contents c w.cell hk, byteAt_contents c v.cell hk, bytes k (lt_blockCount hk)]

def startOf (c : Chain) (offset : Nat) (append : Bool) : Nat := if append then c.size.toNat else offset

section

variable {append : Bool}

theorem write_eq :
    write offset data append (c, v) = (do
      if c.size.toNat < c.startOf offset append + data.size then resize (c.startOf offset append + data.size)
      let c' ← object
      onVolume (c'.store (c.startOf offset append) data)
      return data.size : Holding Chain Nat) (c, v) := by
  rw [write, object_bind]
  rfl

theorem write_tooLarge (hlong : c.size.toNat < c.startOf offset append + data.size)
    (hsize : 65802 * blockSize < c.startOf offset append + data.size) :
    write offset data append (c, v) = .error .fileTooLarge (c, v) := by
  rw [write_eq, if_pos hlong, bind_of_error (resize_tooLarge hsize)]

variable (h : c.Held v) (hv : v.Sound)

include h hv

theorem write_noSpace (hlong : c.size.toNat < c.startOf offset append + data.size)
    (hsize : c.startOf offset append + data.size ≤ 65802 * blockSize)
    (hfree : cost c.blockCount + v.freeBlocks < cost (blocksForSize (c.startOf offset append + data.size))) :
    ∃ u, write offset data append (c, v) = .error .noSpace (c, u) ∧ Kept c v u := by
  obtain ⟨u, hrun, kept⟩ := resize_noSpace h hv hsize hfree
  exact ⟨u, by rw [write_eq, if_pos hlong, bind_of_error hrun], kept⟩

theorem write_ok (hfits : c.size.toNat < c.startOf offset append + data.size →
      c.startOf offset append + data.size ≤ 65802 * blockSize ∧
        cost (blocksForSize (c.startOf offset append + data.size)) ≤ cost c.blockCount + v.freeBlocks) :
    ∃ c' u, write offset data append (c, v) = .ok data.size (c', u) ∧ Moves c v c' u ∧
      c'.contents u.cell = overwrite (fitTo (max c.size.toNat (c.startOf offset append + data.size))
        (c.contents v.cell)) (c.startOf offset append) data := by
  by_cases hlong : c.size.toNat < c.startOf offset append + data.size
  · obtain ⟨hsize, hfree⟩ := hfits hlong
    obtain ⟨c₁, v₁, hrun, resized⟩ := resize_ok h hv hsize hfree
    have held := resized.moves.held
    obtain ⟨w, hstore, stored, hbytes⟩ := store_ok held resized.moves.evolves.sound (Nat.le_of_eq resized.length.symm)
    refine ⟨c₁, w, ?_, resized.moves.trans (stored.moves held), ?_⟩
    · rw [write_eq, if_pos hlong, bind_of_ok hrun]
      exact (object_bind _).trans (bind_of_ok (onVolume_of_ok hstore))
    · rw [contents_of_stored (Nat.le_of_eq resized.length.symm) hbytes, resized.contents,
        Nat.max_eq_right (Nat.le_of_lt hlong)]
  · have hstop := Nat.le_of_not_lt hlong
    obtain ⟨w, hstore, stored, hbytes⟩ := store_ok h hv hstop
    have hfit : fitTo c.size.toNat (c.contents v.cell) = c.contents v.cell := by
      refine eq_of_byteAt ?_ fun k hk => ?_
      · rw [size_fitTo, size_contents]
      · rw [size_fitTo] at hk
        exact byteAt_fitTo _ _ hk
    refine ⟨c, w, ?_, stored.moves h, ?_⟩
    · rw [write_eq, if_neg hlong]
      exact (object_bind _).trans (bind_of_ok (onVolume_of_ok hstore))
    · rw [contents_of_stored hstop hbytes, Nat.max_eq_left hstop, hfit]

end

end Chain

end ImageFS

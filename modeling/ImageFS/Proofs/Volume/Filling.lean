import ImageFS.Proofs.Volume.Table

/-!
# Writing many blocks

Blocks are written one after another, each to its home. Writing all parts of the free map makes the
device tell what the map in memory tells.
-/

set_option autoImplicit false

namespace ImageFS.Volume

variable {v w : Volume} {α : Type}

/-- What is left when blocks were written one after another. -/
structure Filled (v : Volume) (l : List α) (home : α → UInt32) (block : α → Block) (w : Volume) : Prop where
  sound : w.Sound
  superblock : w.superblock = v.superblock
  map : w.freeMap = v.freeMap
  inside : ∀ a ∈ l, w.cell (home a) = block a
  outside : ∀ x, (∀ a ∈ l, home a ≠ x) → w.cell x = v.cell x

theorem writeBlock_ok (hv : v.Sound) {b : UInt32} (hb : b.toNat < v.freeMap.blockCount.toNat) (block : Block) :
    ∃ w, writeBlock b block v = .ok () w ∧ Filled v [b] id (fun _ => block) w := by
  refine ⟨_, writeBlock_eq hv hb block, hv.put hb block, rfl, rfl, fun x hx => ?_, fun x hx => ?_⟩
  · rw [id_eq, cell_put hv hb, if_pos (List.mem_singleton.mp hx)]
  · have hne : b ≠ x := hx b List.mem_cons_self
    rw [cell_put hv hb, if_neg hne.symm]

theorem writeBlocks_ok (hv : v.Sound) (l : List α) (home : α → UInt32) (block : α → Block)
    (hin : ∀ a ∈ l, (home a).toNat < v.freeMap.blockCount.toNat)
    (same : ∀ a ∈ l, ∀ b ∈ l, home a = home b → block a = block b) :
    ∃ w, l.forM (fun a => writeBlock (home a) (block a)) v = .ok () w ∧ Filled v l home block w := by
  induction l generalizing v with
  | nil => exact ⟨v, rfl, hv, rfl, rfl, fun _ ha => (List.not_mem_nil ha).elim, fun _ _ => rfl⟩
  | cons a l ih =>
    have ha := hin a List.mem_cons_self
    have hput := hv.put ha (block a)
    obtain ⟨w, hrun, f⟩ := ih hput (fun b hb => hin b (List.mem_cons_of_mem _ hb))
      fun b hb b' hb' => same b (List.mem_cons_of_mem _ hb) b' (List.mem_cons_of_mem _ hb')
    refine ⟨w, ?_, f.sound, f.superblock, f.map, fun b hb => ?_, fun x hx => ?_⟩
    · exact (bind_of_ok (writeBlock_eq hv ha _)).trans hrun
    · by_cases hlater : ∃ b' ∈ l, home b' = home b
      · obtain ⟨b', hb', heq⟩ := hlater
        rw [← heq, f.inside b' hb', same b' (List.mem_cons_of_mem _ hb') b hb heq]
      · push Not at hlater
        rw [f.outside _ hlater, cell_put hv ha]
        rcases List.mem_cons.mp hb with rfl | hb
        · rw [if_pos rfl]
        · exact absurd rfl (hlater b hb)
    · rw [f.outside x fun b hb => hx b (List.mem_cons_of_mem _ hb), cell_put hv ha,
        if_neg (hx a List.mem_cons_self).symm]

theorem toNat_offset {base : UInt32} {k : Nat} (h : base.toNat + k < UInt32.size) :
    (base + .ofNat k).toNat = base.toNat + k := by
  rw [UInt32.toNat_add, UInt32.toNat_ofNat_of_lt' (Nat.lt_of_le_of_lt (Nat.le_add_left _ _) h)]
  exact Nat.mod_eq_of_lt h

theorem toNat_mapPart {count : UInt32} {i : Nat} (hi : i < (Superblock.mapBlocksFor count).toNat) :
    (firstMapBlock + .ofNat i).toNat = firstMapBlock.toNat + i := by
  have hcount := count.toNat_lt
  have htwo : firstMapBlock.toNat = 2 := rfl
  rw [toNat_mapBlocksFor] at hi
  apply toNat_offset
  simp only [ceilDiv, bitsPerBlock, UInt32.size] at *
  omega

theorem mem_parts (hcount : v.superblock.blockCount = v.freeMap.blockCount) {p : UInt32 × Block} :
    p ∈ (FreeMap.homes v.superblock).toList.zip v.freeMap.blocks.toList ↔
      ∃ i < (Superblock.mapBlocksFor v.freeMap.blockCount).toNat,
        p = (firstMapBlock + .ofNat i, v.freeMap.part (i * bitsPerBlock)) := by
  have hlength : (FreeMap.homes v.superblock).toList.length =
      (Superblock.mapBlocksFor v.freeMap.blockCount).toNat := by
    rw [Vector.length_toList, Superblock.mapBlocks, hcount]
  have hboth : ((FreeMap.homes v.superblock).toList.zip v.freeMap.blocks.toList).length =
      (Superblock.mapBlocksFor v.freeMap.blockCount).toNat := by
    rw [List.length_zip, hlength, Vector.length_toList, Nat.min_self]
  have hget : ∀ i (hi : i < ((FreeMap.homes v.superblock).toList.zip v.freeMap.blocks.toList).length),
      ((FreeMap.homes v.superblock).toList.zip v.freeMap.blocks.toList)[i] =
        (firstMapBlock + .ofNat i, v.freeMap.part (i * bitsPerBlock)) := by
    intro i hi
    have hblocks : i < (Superblock.mapBlocksFor v.freeMap.blockCount).toNat := hboth ▸ hi
    rw [List.getElem_zip, FreeMap.part, Nat.mul_div_cancel i (by decide : 0 < bitsPerBlock)]
    simp [FreeMap.homes, hblocks]
  constructor
  · intro hp
    obtain ⟨i, hi, rfl⟩ := List.mem_iff_getElem.mp hp
    exact ⟨i, hboth ▸ hi, hget i hi⟩
  · rintro ⟨i, hi, rfl⟩
    exact List.mem_iff_getElem.mpr ⟨i, hboth.symm ▸ hi, hget i (hboth.symm ▸ hi)⟩

theorem cell_home_of_parts {m : FreeMap}
    (h : ∀ i < (Superblock.mapBlocksFor m.blockCount).toNat, w.cell (firstMapBlock + .ofNat i) = m.part (i * bitsPerBlock))
    {b : Nat} (hb : b < m.blockCount.toNat) : w.cell (FreeMap.home b) = m.part b := by
  have hpart : b / bitsPerBlock = b / bitsPerBlock * bitsPerBlock / bitsPerBlock := by
    rw [Nat.mul_div_cancel _ (by decide)]
  rw [FreeMap.home, m.part_eq hpart, h _ (m.part_lt hb)]

theorem writeMap_ok (hv : v.Sound) (hcount : v.superblock.blockCount = v.freeMap.blockCount)
    (hmap : firstMapBlock.toNat + (Superblock.mapBlocksFor v.freeMap.blockCount).toNat ≤ v.freeMap.blockCount.toNat) :
    ∃ w, writeMap v = .ok () w ∧
      Filled v ((FreeMap.homes v.superblock).toList.zip v.freeMap.blocks.toList) Prod.fst Prod.snd w := by
  apply writeBlocks_ok hv
  · intro q hq
    obtain ⟨i, hi, rfl⟩ := (mem_parts hcount).mp hq
    rw [toNat_mapPart hi]
    omega
  · intro q hq r hr he
    obtain ⟨i, hi, rfl⟩ := (mem_parts hcount).mp hq
    obtain ⟨j, hj, rfl⟩ := (mem_parts hcount).mp hr
    have hij := congrArg UInt32.toNat he
    rw [toNat_mapPart hi, toNat_mapPart hj] at hij
    rw [Nat.add_left_cancel hij]

theorem Filled.synced (hcount : v.superblock.blockCount = v.freeMap.blockCount)
    (f : Filled v ((FreeMap.homes v.superblock).toList.zip v.freeMap.blocks.toList) Prod.fst Prod.snd w) : w.Synced := by
  intro b hb
  rw [f.map] at hb ⊢
  refine cell_home_of_parts (fun i hi => ?_) hb
  exact f.inside (firstMapBlock + .ofNat i, v.freeMap.part (i * bitsPerBlock)) ((mem_parts hcount).mpr ⟨i, hi, rfl⟩)

theorem sound_fresh {device : Device} (hd : device.Sound) {count inodes : UInt32} (hfits : count.toNat ≤ device.blockCount)
    (hroom : (Superblock.plan count inodes).firstDataBlock.toNat < count.toNat) :
    Sound ⟨device, .plan count inodes, .fresh (.plan count inodes)⟩ where
  device := hd
  fits := hfits
  room := Nat.le_of_lt hroom
  guarded b hb := by
    obtain ⟨hfirst, hdata⟩ := toNat_plan count inodes
    have hb : b < max (Superblock.plan count inodes).firstDataBlock.toNat
      (firstMapBlock.toNat + (Superblock.mapBlocksFor count).toNat) := hb
    rw [FreeMap.isFree_fresh, decide_eq_false_iff_not]
    omega

end ImageFS.Volume

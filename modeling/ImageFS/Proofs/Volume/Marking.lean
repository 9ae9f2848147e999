import ImageFS.Proofs.Action
import ImageFS.Proofs.FreeMap.Bits

/-!
# Marks in memory when the device fails

What taking and giving back a block do to the map in memory, on any device and wherever its writes fail.
Taking undoes its mark when the map cannot be written. Giving back does not. Neither touches the marks of
the metadata.
-/

set_option autoImplicit false

namespace ImageFS.Volume

theorem modifyMap_eq (f : FreeMap → FreeMap) (v : Volume) :
    modifyMap f v = .ok () { v with freeMap := f v.freeMap } := rfl

theorem writeBlock_cases (b : UInt32) (block : Block) (v : Volume) :
    (∃ d, writeBlock b block v = .ok () { v with device := d }) ∨
      ∃ d e, writeBlock b block v = .error e { v with device := d } := by
  obtain ⟨device, superblock, freeMap⟩ := v
  simp only [writeBlock]
  cases Device.writeBlock b block device with
  | ok _ d => exact .inl ⟨d, rfl⟩
  | error e d => exact .inr ⟨d, e, rfl⟩

theorem writeMapPart_cases (i : Nat) (v : Volume) :
    (∃ d, writeMapPart i v = .ok () { v with device := d }) ∨
      ∃ d e, writeMapPart i v = .error e { v with device := d } :=
  writeBlock_cases _ _ v

theorem allocate_of_some {v : Volume} {i : Nat} (hlow : v.freeMap.lowestFree = some i) :
    allocate v = (do
      tryCatch (writeMapPart i) fun e => do
        modifyMap (·.markFree i)
        throw e
      return .ofNat i : VolumeM UInt32) { v with freeMap := v.freeMap.markUsed i } := by
  have hask : ask (fun v => .ok v.freeMap.lowestFree) v = .ok (some i) v := ask_of_ok (congrArg Except.ok hlow)
  rw [allocate, bind_of_ok hask]
  dsimp only
  rw [bind_of_ok (modifyMap_eq (·.markUsed i) v)]

theorem allocate_of_none {v : Volume} (hlow : v.freeMap.lowestFree = none) : allocate v = .error .noSpace v := by
  have hask : ask (fun v => .ok v.freeMap.lowestFree) v = .ok none v := ask_of_ok (congrArg Except.ok hlow)
  rw [allocate, bind_of_ok hask]
  rfl

theorem allocate_cases (v : Volume) :
    (∃ i d, v.freeMap.lowestFree = some i ∧
      allocate v = .ok (.ofNat i) { v with device := d, freeMap := v.freeMap.markUsed i }) ∨
      ∃ d e, allocate v = .error e { v with device := d } := by
  cases hlow : v.freeMap.lowestFree with
  | none => exact .inr ⟨v.device, .noSpace, allocate_of_none hlow⟩
  | some i =>
    rw [allocate_of_some hlow]
    rcases writeMapPart_cases i { v with freeMap := v.freeMap.markUsed i } with ⟨d, hwrite⟩ | ⟨d, e, hwrite⟩
    · exact .inl ⟨i, d, rfl, bind_of_ok (catch_of_ok hwrite)⟩
    · have hback : (do modifyMap (·.markFree i); throw e : VolumeM Unit) ⟨d, v.superblock, v.freeMap.markUsed i⟩ =
          .error e { v with device := d } := by
        rw [bind_of_ok (modifyMap_eq _ _), v.freeMap.markFree_markUsed (v.freeMap.lowestFree_eq_some hlow)]
        rfl
      exact .inr ⟨d, e, bind_of_error ((catch_of_error hwrite).trans hback)⟩

theorem lowestFree_of_allocate {v w : Volume} {b : UInt32} (h : allocate v = .ok b w) :
    v.freeMap.lowestFree = some b.toNat := by
  rcases allocate_cases v with ⟨i, d, hlow, hrun⟩ | ⟨d, e, hrun⟩
  · rw [hrun] at h
    cases h
    have hlt := v.freeMap.lt_of_isFree (v.freeMap.lowestFree_eq_some hlow)
    rw [hlow, UInt32.toNat_ofNat_of_lt' (Nat.lt_trans hlt v.freeMap.blockCount.toNat_lt)]
  · rw [hrun] at h
    cases h

theorem free_of_data {v : Volume} {b : UInt32} (hdata : v.freeMap.firstData ≤ b ∧ b < v.freeMap.blockCount) :
    free b v = writeMapPart b.toNat { v with freeMap := v.freeMap.markFree b.toNat } := by
  have hask : ask (fun v => .ok (decide (v.freeMap.firstData ≤ b ∧ b < v.freeMap.blockCount))) v = .ok true v :=
    ask_of_ok (congrArg Except.ok (decide_eq_true hdata))
  rw [free, bind_of_ok hask, if_pos rfl, bind_of_ok (modifyMap_eq _ _)]

theorem free_of_not_data {v : Volume} {b : UInt32} (hdata : ¬ (v.freeMap.firstData ≤ b ∧ b < v.freeMap.blockCount)) :
    free b v = .ok () v := by
  have hask : ask (fun v => .ok (decide (v.freeMap.firstData ≤ b ∧ b < v.freeMap.blockCount))) v = .ok false v :=
    ask_of_ok (congrArg Except.ok (decide_eq_false hdata))
  rw [free, bind_of_ok hask]
  rfl

theorem free_cases (b : UInt32) (v : Volume) :
    (¬ (v.freeMap.firstData ≤ b ∧ b < v.freeMap.blockCount) ∧ free b v = .ok () v) ∨
      ((v.freeMap.firstData ≤ b ∧ b < v.freeMap.blockCount) ∧
        ((∃ d, free b v = .ok () { v with device := d, freeMap := v.freeMap.markFree b.toNat }) ∨
          ∃ d e, free b v = .error e { v with device := d, freeMap := v.freeMap.markFree b.toNat })) := by
  by_cases hdata : v.freeMap.firstData ≤ b ∧ b < v.freeMap.blockCount
  · rw [free_of_data hdata]
    exact .inr ⟨hdata, writeMapPart_cases _ _⟩
  · exact .inl ⟨hdata, free_of_not_data hdata⟩

def Guarded (v : Volume) : Prop := ∀ b < v.freeMap.firstData.toNat, v.freeMap.bit b = false

/-- `w` is laid out as `v`, and has no more of the metadata as free. -/
structure Alike (v w : Volume) : Prop where
  superblock : w.superblock = v.superblock
  count : w.freeMap.blockCount = v.freeMap.blockCount
  first : w.freeMap.firstData = v.freeMap.firstData
  metadata : ∀ b < v.freeMap.firstData.toNat, w.freeMap.bit b = true → v.freeMap.bit b = true

variable {v w u : Volume} {b : UInt32} {i : Nat} {d : Device}

theorem Alike.refl (v : Volume) : Alike v v := ⟨rfl, rfl, rfl, fun _ _ => id⟩

theorem Alike.trans (h : Alike v w) (h' : Alike w u) : Alike v u :=
  ⟨h'.superblock.trans h.superblock, h'.count.trans h.count, h'.first.trans h.first,
    fun b hb hbit => h.metadata b hb (h'.metadata b (h.first.symm ▸ hb) hbit)⟩

theorem Alike.guarded (h : Alike v w) (guarded : v.Guarded) : w.Guarded := by
  intro b hb
  rw [h.first] at hb
  by_contra hbit
  have := h.metadata b hb (Bool.not_eq_false _ ▸ hbit)
  rw [guarded b hb] at this
  cases this

theorem alike_device (v : Volume) (d : Device) : Alike v { v with device := d } := ⟨rfl, rfl, rfl, fun _ _ => id⟩

theorem alike_markUsed (h : v.freeMap.isFree i = true) :
    Alike v { v with device := d, freeMap := v.freeMap.markUsed i } := by
  have hlt : i < v.freeMap.blockCount.toNat := v.freeMap.lt_of_isFree h
  refine ⟨rfl, rfl, rfl, fun j _ hbit => ?_⟩
  have hbit := (v.freeMap.bit_markUsed hlt j).symm.trans hbit
  by_cases hji : j = i
  · rw [if_pos hji] at hbit
    cases hbit
  · rwa [if_neg hji] at hbit

theorem alike_markFree (hdata : v.freeMap.firstData ≤ b ∧ b < v.freeMap.blockCount) :
    Alike v { v with device := d, freeMap := v.freeMap.markFree b.toNat } := by
  have hlow := UInt32.le_iff_toNat_le.mp hdata.1
  refine ⟨rfl, rfl, rfl, fun j hj hbit => ?_⟩
  have hbit := (v.freeMap.bit_markFree (UInt32.lt_iff_toNat_lt.mp hdata.2) j).symm.trans hbit
  rwa [if_neg (by omega)] at hbit

end ImageFS.Volume

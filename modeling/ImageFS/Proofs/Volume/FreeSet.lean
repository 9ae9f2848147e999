import ImageFS.Proofs.Volume.Filling
import ImageFS.Proofs.Volume.Remount
import Mathlib.Data.Finset.Max
import Mathlib.Order.Interval.Finset.Nat

/-!
# The free map as a finite set

A volume that was laid out from a plan stands for a set of block numbers: those with a set bit. Taking a
block removes the least number of the set and giving one back puts it in, and whatever calls are made, the
device has the same map and the bits outside the data stay cleared.
-/

set_option autoImplicit false

namespace ImageFS.Volume

inductive MapCall where
  | allocate
  | free (b : UInt32)

namespace MapCall

def run : MapCall → VolumeM (Option UInt32)
  | allocate => do return some (← Volume.allocate)
  | free b => do
    Volume.free b
    return none

/-- What the call does to a set of free blocks, when data begin at `first` and end before `stop`. -/
def onSet (first stop : ℕ) : MapCall → StateM (Finset ℕ) (Except Error (Option UInt32))
  | allocate => fun S =>
    if h : S.Nonempty then (.ok (some (.ofNat (S.min' h))), S.erase (S.min' h)) else (.error .noSpace, S)
  | free b => fun S => (.ok none, if first ≤ b.toNat ∧ b.toNat < stop then insert b.toNat S else S)

end MapCall

/-- The set bits of the map are those of the blocks in `S`, which are data. -/
structure Represents (v : Volume) (S : Finset ℕ) : Prop where
  sound : v.Sound
  start : v.dataStart = v.freeMap.firstData.toNat
  bits : ∀ b, v.freeMap.bit b = decide (b ∈ S)
  inside : S ⊆ Finset.Ico v.freeMap.firstData.toNat v.freeMap.blockCount.toNat

namespace Represents

variable {v w : Volume} {S T : Finset ℕ} {b : UInt32}

theorem isFree (h : Represents v S) (b : ℕ) : v.freeMap.isFree b = decide (b ∈ S) := by
  rw [FreeMap.isFree_eq, h.bits, ← Bool.decide_and, decide_eq_decide]
  exact and_iff_right_of_imp fun hb => (Finset.mem_Ico.mp (h.inside hb)).2

theorem isFree_of_mem (h : Represents v S) {b : ℕ} (hb : b ∈ S) : v.freeMap.isFree b = true := by
  rw [h.isFree, decide_eq_true hb]

theorem mem_of_isFree (h : Represents v S) {b : ℕ} (hb : v.freeMap.isFree b = true) : b ∈ S := by
  rw [h.isFree] at hb
  exact of_decide_eq_true hb

theorem freeCount (h : Represents v S) : v.freeMap.freeCount = S.card := by
  have hset : ((List.range v.freeMap.blockCount.toNat).filter v.freeMap.isFree).toFinset = S := by
    ext b
    rw [List.mem_toFinset, List.mem_filter, List.mem_range]
    exact ⟨fun hb => h.mem_of_isFree hb.2, fun hb => ⟨(Finset.mem_Ico.mp (h.inside hb)).2, h.isFree_of_mem hb⟩⟩
  rw [FreeMap.freeCount_eq_countP, List.countP_eq_length_filter, ← hset,
    List.toFinset_card_of_nodup (List.nodup_range.filter _)]

theorem lowestFree_of_nonempty (h : Represents v S) (hS : S.Nonempty) : v.freeMap.lowestFree = some (S.min' hS) := by
  have hmem := S.min'_mem hS
  have hfirst : firstMapBlock.toNat ≤ S.min' hS := by
    have hlow := (Finset.mem_Ico.mp (h.inside hmem)).1
    rw [← h.start] at hlow
    exact Nat.le_trans (Nat.le_of_add_right_le v.map_le_dataStart) hlow
  obtain ⟨b, hle, hlowest⟩ := v.freeMap.exists_lowestFree hfirst (h.isFree_of_mem hmem)
  have hb := h.mem_of_isFree (v.freeMap.lowestFree_eq_some hlowest)
  rw [hlowest, Nat.le_antisymm hle (S.min'_le b hb)]

theorem lowestFree_of_empty (h : Represents v ∅) : v.freeMap.lowestFree = none :=
  h.sound.lowestFree_none.mpr h.freeCount

theorem isData (h : Represents v S) (hlow : v.freeMap.firstData.toNat ≤ b.toNat)
    (hhigh : b.toNat < v.freeMap.blockCount.toNat) : v.IsData b :=
  ⟨h.start.symm ▸ hlow, hhigh⟩

theorem of_evolves (h : Represents v S) (evolves : Evolves v w) (bits : ∀ b, w.freeMap.bit b = decide (b ∈ T))
    (inside : T ⊆ Finset.Ico v.freeMap.firstData.toNat v.freeMap.blockCount.toNat) : Represents w T where
  sound := evolves.sound
  start := by rw [evolves.dataStart_eq, evolves.first, h.start]
  bits := bits
  inside := by rwa [evolves.first, evolves.count]

theorem take (h : Represents v S) {b : ℕ} (hb : b ∈ S) : Represents (v.take b) (S.erase b) := by
  have hfree := h.isFree_of_mem hb
  refine h.of_evolves (h.sound.evolves_take hfree) (fun j => ?_) ((S.erase_subset b).trans h.inside)
  apply (v.freeMap.bit_markUsed (v.freeMap.lt_of_isFree hfree) j).trans
  by_cases hj : j = b <;> simp [hj, h.bits]

theorem giveBack (h : Represents v S) (hb : v.IsData b) : Represents (v.giveBack b.toNat) (insert b.toNat S) := by
  refine h.of_evolves (h.sound.evolves_giveBack hb) (fun j => ?_) (Finset.insert_subset ?_ h.inside)
  · apply (v.freeMap.bit_markFree hb.2 j).trans
    by_cases hj : j = b.toNat <;> simp [hj, h.bits]
  · exact Finset.mem_Ico.mpr ⟨hb.firstData_le, hb.2⟩

theorem attempt_run (h : Represents v S) (c : MapCall) :
    ∃ w, attempt c.run v =
        .ok ((c.onSet v.freeMap.firstData.toNat v.freeMap.blockCount.toNat).run S).1 w ∧
      Evolves v w ∧ Represents w ((c.onSet v.freeMap.firstData.toNat v.freeMap.blockCount.toNat).run S).2 := by
  cases c with
  | allocate =>
    by_cases hS : S.Nonempty
    · have hset : (MapCall.allocate.onSet v.freeMap.firstData.toNat v.freeMap.blockCount.toNat).run S =
          (.ok (some (.ofNat (S.min' hS))), S.erase (S.min' hS)) := dif_pos hS
      have hrun : MapCall.allocate.run v = .ok (some (.ofNat (S.min' hS))) (v.take (S.min' hS)) :=
        bind_of_ok (allocate_eq h.sound (h.lowestFree_of_nonempty hS))
      rw [hset]
      have hmem := S.min'_mem hS
      exact ⟨_, attempt_of_ok hrun, h.sound.evolves_take (h.isFree_of_mem hmem), h.take hmem⟩
    · have hset : (MapCall.allocate.onSet v.freeMap.firstData.toNat v.freeMap.blockCount.toNat).run S =
          (.error .noSpace, S) := dif_neg hS
      have hrun : MapCall.allocate.run v = .error .noSpace v := by
        rw [Finset.not_nonempty_iff_eq_empty] at hS
        exact bind_of_error (allocate_of_none (lowestFree_of_empty (hS ▸ h)))
      rw [hset]
      exact ⟨v, attempt_of_error hrun, .refl h.sound, h⟩
  | free b =>
    -- Numbers of metadata and numbers behind the end are passed over by the map and by the set.
    by_cases hb : v.freeMap.firstData.toNat ≤ b.toNat ∧ b.toNat < v.freeMap.blockCount.toNat
    · have hset : ((MapCall.free b).onSet v.freeMap.firstData.toNat v.freeMap.blockCount.toNat).run S =
          (.ok none, insert b.toNat S) := congrArg (Prod.mk _) (if_pos hb)
      have hdata := h.isData hb.1 hb.2
      rw [hset]
      exact ⟨_, attempt_of_ok (bind_of_ok (free_eq h.sound hdata)), h.sound.evolves_giveBack hdata, h.giveBack hdata⟩
    · have hset : ((MapCall.free b).onSet v.freeMap.firstData.toNat v.freeMap.blockCount.toNat).run S =
          (.ok none, S) := congrArg (Prod.mk _) (if_neg hb)
      rw [hset]
      have hout : ¬ (v.freeMap.firstData ≤ b ∧ b < v.freeMap.blockCount) := by
        rwa [UInt32.le_iff_toNat_le, UInt32.lt_iff_toNat_lt]
      exact ⟨v, attempt_of_ok (bind_of_ok (free_of_not_data hout)), .refl h.sound, h⟩

theorem run_calls (h : Represents v S) (calls : List MapCall) :
    ∃ w, calls.mapM (fun c => attempt c.run) v =
        .ok ((calls.mapM (MapCall.onSet v.freeMap.firstData.toNat v.freeMap.blockCount.toNat)).run S).1 w ∧
      Evolves v w ∧
      Represents w ((calls.mapM (MapCall.onSet v.freeMap.firstData.toNat v.freeMap.blockCount.toNat)).run S).2 := by
  induction calls generalizing v S with
  | nil => exact ⟨v, rfl, .refl h.sound, h⟩
  | cons c calls ih =>
    obtain ⟨u, hfirst, evolves, hu⟩ := h.attempt_run c
    obtain ⟨w, hrest, evolves', hw⟩ := ih hu
    rw [evolves.first, evolves.count] at hrest hw
    refine ⟨w, ?_, evolves.trans evolves', ?_⟩
    · rw [List.mapM_cons, bind_of_ok hfirst, bind_of_ok hrest, List.mapM_cons]
      rfl
    · rw [List.mapM_cons]
      exact hw

end Represents

section

variable {device : Device} {count inodes : UInt32}

theorem writeMap_plan (hd : device.Sound) (hroom : (Superblock.plan count inodes).firstDataBlock.toNat < count.toNat)
    (hfits : count.toNat ≤ device.blockCount) :
    ∃ v, writeMap ⟨device, .plan count inodes, .fresh (.plan count inodes)⟩ = .ok () v ∧
      v.superblock = .plan count inodes ∧ v.freeMap = .fresh (.plan count inodes) ∧ v.Synced ∧
      Represents v (Finset.Ico (Superblock.plan count inodes).firstDataBlock.toNat count.toNat) := by
  obtain ⟨hfirst, hdata⟩ := toNat_plan count inodes
  have hmap : firstMapBlock.toNat + (Superblock.mapBlocksFor count).toNat ≤
      (Superblock.plan count inodes).firstDataBlock.toNat := by omega
  obtain ⟨v, hrun, f⟩ := writeMap_ok (sound_fresh hd hfits hroom) rfl (Nat.le_trans hmap (Nat.le_of_lt hroom))
  refine ⟨v, hrun, f.superblock, f.map, f.synced rfl, f.sound, ?_, fun b => ?_, ?_⟩
  · rw [dataStart, f.map]
    exact Nat.max_eq_left hmap
  · rw [f.map, FreeMap.bit_fresh, decide_eq_decide, Finset.mem_Ico]
    rfl
  · rw [f.map]
    exact Finset.Subset.refl _

/-- On a device without faults, the map of a plan with room for data is a finite set of block numbers, at first
all those behind the metadata. Whatever is taken and given back, each call is answered as the set answers it:
taking hands out the least number and fails when there is none, and giving back counts for data alone. The map
tells the members of the set and their number, the device has the same map, and no bit is set in front of the
data or behind the end. -/
theorem free_map_acts_as_set (hd : device.FaultFree) (hs : device.checkSectorSize = .ok ())
    (hroom : (Superblock.plan count inodes).firstDataBlock < count) (hfits : count.toNat ≤ device.blockCount) :
    ∃ v, writeMap ⟨device, .plan count inodes, .fresh (.plan count inodes)⟩ = .ok () v ∧
      ∀ (first stop : ℕ), first = (Superblock.plan count inodes).firstDataBlock.toNat → stop = count.toNat →
      ∀ (calls : List MapCall) (answers : List (Except Error (Option UInt32))) (S : Finset ℕ),
        (calls.mapM (MapCall.onSet first stop)).run (Finset.Ico first stop) = (answers, S) →
        ∃ w, calls.mapM (fun c => attempt c.run) v = .ok answers w ∧
          S ⊆ Finset.Ico first stop ∧ (∀ b, w.freeMap.isFree b = decide (b ∈ S)) ∧ w.freeMap.freeCount = S.card ∧
          FreeMap.read w.device (.plan count inodes) = .ok w.freeMap ∧
          (∀ b, b < first ∨ stop ≤ b → w.freeMap.bit b = false) ∧
          ∀ b : UInt32, b.toNat < first ∨ stop ≤ b.toNat → free b w = .ok () w := by
  obtain ⟨v, hwrite, hsuper, hmap, hsynced, hv⟩ := writeMap_plan ⟨hd, hs⟩ (UInt32.lt_iff_toNat_lt.mp hroom) hfits
  refine ⟨v, hwrite, fun first stop hfirst hstop calls answers S hset => ?_⟩
  have hbegins : v.freeMap.firstData.toNat = first := by rw [hmap, hfirst]; rfl
  have hends : v.freeMap.blockCount.toNat = stop := by rw [hmap, hstop]; rfl
  rw [← hfirst, ← hstop] at hv
  obtain ⟨w, hrun, evolves, hw⟩ := hv.run_calls calls
  rw [hbegins, hends, hset] at hrun hw
  have hinside := hw.inside
  rw [evolves.first, evolves.count, hbegins, hends] at hinside
  have hin : ∀ b, b < first ∨ stop ≤ b → b ∉ S := fun b hb hmem => by
    have := Finset.mem_Ico.mp (hinside hmem)
    omega
  refine ⟨w, hrun, hinside, hw.isFree, hw.freeCount, ?_, fun b hb => ?_, fun b hb => free_of_not_data ?_⟩
  · have hread := freeMap_read_of_synced hw.sound
      (by rw [evolves.superblock, evolves.count, hsuper, hmap]; rfl)
      (by rw [evolves.superblock, evolves.first, hsuper, hmap]; rfl)
      (Nat.le_trans w.map_le_dataStart (hw.start ▸ hw.sound.room)) (evolves.synced hsynced)
    rwa [evolves.superblock, hsuper] at hread
  · rw [hw.bits, decide_eq_false (hin b hb)]
  · rw [UInt32.le_iff_toNat_le, UInt32.lt_iff_toNat_lt, evolves.first, evolves.count, hbegins, hends]
    omega

theorem free_map_acts_as_set_eight :
    (Device.blank 8192 512).FaultFree ∧ (Device.blank 8192 512).checkSectorSize = .ok () ∧
    (Superblock.plan 8 16).firstDataBlock < 8 ∧ (8 : UInt32).toNat ≤ (Device.blank 8192 512).blockCount ∧
    ∃ v w, writeMap ⟨Device.blank 8192 512, .plan 8 16, .fresh (.plan 8 16)⟩ = .ok () v ∧
      [.allocate, .allocate, .allocate, .allocate, .allocate, .free 6, .free 6, .free 3, .free 8, .free 0xFFFFFFFF,
          .allocate, .allocate].mapM (fun c => attempt (MapCall.run c)) v =
        .ok [.ok (some 4), .ok (some 5), .ok (some 6), .ok (some 7), .error .noSpace, .ok none, .ok none, .ok none,
          .ok none, .ok none, .ok (some 6), .error .noSpace] w ∧
      w.freeMap.freeCount = 0 ∧ FreeMap.read w.device (.plan 8 16) = .ok w.freeMap := by
  have hd : (Device.blank 8192 512).FaultFree := ⟨fun _ => rfl, fun _ => rfl, rfl⟩
  have hs : (Device.blank 8192 512).checkSectorSize = .ok () := by decide
  have hroom : (Superblock.plan 8 16).firstDataBlock < 8 := by decide
  have hfits : (8 : UInt32).toNat ≤ (Device.blank 8192 512).blockCount := by
    rw [Device.Sound.blockCount_eq ⟨hd, hs⟩, Device.blank, size_zeros]
    decide
  obtain ⟨v, hwrite, hcalls⟩ := free_map_acts_as_set hd hs hroom hfits
  have hset : ([.allocate, .allocate, .allocate, .allocate, .allocate, .free 6, .free 6, .free 3, .free 8,
      .free 0xFFFFFFFF, .allocate, .allocate].mapM (MapCall.onSet 4 8)).run (Finset.Ico 4 8) =
      ([.ok (some 4), .ok (some 5), .ok (some 6), .ok (some 7), .error .noSpace, .ok none, .ok none, .ok none,
        .ok none, .ok none, .ok (some 6), .error .noSpace], ∅) := by
    change (_ : List (Except Error (Option UInt32)) × Finset ℕ) = _
    decide +kernel
  obtain ⟨w, hrun, -, -, hcount, hread, -⟩ := hcalls 4 8 (by decide) (by decide) _ _ _ hset
  exact ⟨hd, hs, hroom, hfits, v, w, hwrite, hrun, hcount, hread⟩

end

end ImageFS.Volume

import ImageFS.Proofs.Chain.FailedGrowth
import ImageFS.Proofs.FileSystem.LooseChains
import ImageFS.Proofs.FileSystem.MountedVolumes

/-!
# Failed growth keeps the books

When some blocks behind the metadata reject writes, a file that is written or made longer may stop anywhere: at the
clearing of a fresh block, at a pointer, at the data, or for lack of space. What has been added by then is kept and
recorded, or taken off again; in all cases the map has as taken just the metadata and the blocks that the recorded
chains reach.
-/

set_option autoImplicit false

namespace ImageFS

open Volume

variable {v w x y u : Volume}

namespace Volume

theorem Arranged.alike (l : v.Arranged) (s : Alike v w) : w.Arranged where
  table := by rw [s.superblock, s.count, l.table]
  firstData := by rw [s.first, s.superblock, l.firstData]
  inodes := by
    rw [s.superblock]
    exact l.inodes
  superblock := by
    rw [s.superblock, s.count]
    exact l.superblock

theorem arranged_blueprint {device : Device} {inodes : UInt32} (h : blueprint device inodes = .ok v) : v.Arranged := by
  obtain ⟨-, -, hinodes, -, rfl⟩ := blueprint_eq h
  obtain ⟨hfirst, hdata⟩ := toNat_plan (.ofNat device.blockCount) inodes
  exact ⟨hfirst, hdata, hinodes, rfl⟩

end Volume

namespace FileSystem

theorem Troubled.arranged (h : Troubled v) : v.Arranged := h.induct_layout arranged_blueprint Arranged.alike

theorem Troubled.room (h : Troubled v) : v.freeMap.firstData.toNat ≤ v.freeMap.blockCount.toNat := by
  refine h.induct_layout (P := fun v => v.freeMap.firstData.toNat ≤ v.freeMap.blockCount.toNat) (fun hplan => ?_)
    fun hle s => ?_
  · obtain ⟨-, -, -, hroom, rfl⟩ := blueprint_eq hplan
    exact Nat.le_of_lt hroom
  · rw [s.first, s.count]
    exact hle

theorem Troubled.sound (h : Troubled v) : (v.withFaults .none).Sound := by
  obtain ⟨n, hn⟩ := h.mounted.seated
  refine ⟨⟨⟨fun _ => rfl, fun _ => rfl, rfl⟩, hn.sectors⟩, ?_, h.room, fun b hb => metadata_never_free h ?_⟩
  · exact hn.blocks.symm ▸ hn.fits
  · have hstart : (v.withFaults .none).dataStart = v.freeMap.firstData.toNat := h.arranged.dataStart_eq
    rw [h.fenced.first]
    omega

/-- Past all faults, the recorded chains of the inodes in use hold just the blocks behind the metadata that are taken,
each of them once. -/
def Balanced (v : Volume) : Prop := (v.withFaults .none).Accounts (chainOf (v.withFaults .none))

theorem chainOf_congr (h : v.SameReads w) : chainOf w = chainOf v := by
  funext ino
  rw [chainOf, chainOf, h.liveInode]

theorem evolves_withFaults (hv : v.Sound) {f : Faults} (hf : (v.withFaults f).device.FaultFree) :
    Evolves v (v.withFaults f) :=
  ⟨hv.withFaults hf, rfl, rfl, rfl, id⟩

theorem balanced_iff (hv : v.Sound) : Balanced v ↔ v.Accounts (chainOf v) := by
  have hreads : v.SameReads (v.withFaults .none) :=
    ⟨rfl, Device.readBlock_congr rfl rfl hv.device.readable fun _ => rfl⟩
  have evolves := evolves_withFaults hv (f := .none) ⟨fun _ => rfl, fun _ => rfl, rfl⟩
  rw [Balanced, chainOf_congr hreads]
  exact ⟨fun a => a.frame (evolves_withFaults evolves.sound hv.device.toFaultFree) rfl fun _ _ => rfl,
    fun a => a.frame evolves rfl fun _ _ => rfl⟩

section

variable {B : Set Nat} {ino : UInt32} {i i' : Inode} {c c' : Chain}

theorem liveInode_eq_ok (h : liveInode v ino = .ok i) :
    ino.toNat < v.superblock.inodeCount.toNat ∧ v.readInode ino = .ok i ∧ i.isFree = false := by
  obtain ⟨j, hread, h⟩ := ok_of_bind h
  have hin : ino.toNat < v.superblock.inodeCount.toNat := by
    by_contra hout
    rw [readInode_of_le (Nat.le_of_not_lt hout)] at hread
    cases hread
  split at h
  · cases h
  · rename_i hfree
    cases h
    exact ⟨hin, hread, Bool.not_eq_true _ ▸ hfree⟩

theorem chainOf_of_live (h : liveInode v ino = .ok i) : chainOf v ino = i.chain? := by
  rw [chainOf, h]
  rfl

theorem chainOf_putInode (l : v.Arranged) (hv : v.Sound) (held : c.Held v) (hlive : liveInode v ino = .ok i)
    (moves : Chain.Moves c v c' u) (hid : i'.id = ino) (hlink : i'.nlink = i.nlink) (hfits : Inode.Fits i'.body)
    (hi' : i'.chain? = some c') : chainOf (u.putInode i') = Function.update (chainOf v) ino (some c') := by
  obtain ⟨hin, -, hfree⟩ := liveInode_eq_ok hlive
  have hu := moves.evolves
  have lu := l.evolves hu
  have hin' : i'.id.toNat < u.superblock.inodeCount.toNat := by rwa [hid, hu.superblock]
  have hput := evolves_putInode lu hu.sound hin'
  have hrecord : ∀ j, j.toNat < v.superblock.inodeCount.toNat →
      (u.putInode i').readInode j = if j = ino then .ok i' else v.readInode j := by
    intro j hj
    have hsame : u.record j = v.record j := record_congr hu.superblock
      (moves.cell_metadata held hv (l.not_inMap hj) (l.toNat_inodeBlock hj).2)
    rw [readInode_eq (lu.evolves hput) hput.sound (by rwa [hput.superblock, hu.superblock]),
      record_putInode lu hu.sound hin' hfits, hid, readInode_eq l hv hj, hsame]
  funext j
  by_cases hj : j = ino
  · rw [hj, Function.update_self, chainOf, liveInode, hrecord ino hin, if_pos rfl]
    have hbusy : ¬ i'.isFree = true := by
      rw [Inode.isFree, hlink, ← Inode.isFree, hfree]
      exact Bool.false_ne_true
    simp only [bind, Except.bind, if_neg hbusy]
    exact hi'
  · rw [Function.update_of_ne hj, chainOf, chainOf, liveInode, liveInode]
    by_cases hin : j.toNat < v.superblock.inodeCount.toNat
    · rw [hrecord j hin, if_neg hj]
    · have hout := Nat.le_of_not_lt hin
      rw [readInode_of_le hout, readInode_of_le (by rwa [hput.superblock, hu.superblock])]

/-- A call has left the volume `x`, on the device that rejects writes to `B`, with exact books and no recorded chain
changed but that of `ino`. -/
structure Settles (B : Set Nat) (v : Volume) (ino : UInt32) (x y : Volume) : Prop where
  rejecting : Rejecting B v x y
  accounts : x.Accounts (chainOf x)
  chains : chainOf x = chainOf v ∨
    ∃ c c', chainOf v ino = some c ∧ chainOf x = Function.update (chainOf v) ino (some c')

section

variable {α β : Type} {act : Holding Inode α} {chainAct : Holding Chain α} {n mode : UInt32}
  (h : Rejecting B v v y) (a : v.Accounts (chainOf v))

include h a

theorem settles_refl : Settles B v ino v y := ⟨h, a, .inl rfl⟩

theorem settles_writeInode (l : v.Arranged) (hlive : liveInode v ino = .ok ⟨ino, n, .regular mode c⟩)
    (hx : Rejecting B v x w) (moves : Chain.Moves c v c' x) :
    ∃ w', writeInode ⟨ino, n, .regular mode c'⟩ w = .ok () w' ∧
      Settles B v ino (x.putInode ⟨ino, n, .regular mode c'⟩) w' := by
  obtain ⟨hin, -, -⟩ := liveInode_eq_ok hlive
  have hchain : chainOf v ino = some c := chainOf_of_live hlive
  have lx := l.evolves moves.evolves
  have hin' : ino.toNat < x.superblock.inodeCount.toNat := by rwa [moves.evolves.superblock]
  have hput := evolves_putInode lx hx.sound (i := ⟨ino, n, .regular mode c'⟩) hin'
  have hspared : (x.inodeBlock ino).toNat ∉ B := fun hB => by
    have := hx.behind _ hB
    have := (lx.toNat_inodeBlock hin').2
    omega
  have hagree : Agree (Rejecting B v) (writeInode ⟨ino, n, .regular mode c'⟩ x)
      (writeInode ⟨ino, n, .regular mode c'⟩ w) := by
    refine .ask hx (hx.sameReads.checkInode _) fun _ _ => ?_
    refine .ask hx (congrArg _ (hx.sameReads.inodeBlock _)) fun home hhome => ?_
    cases hhome
    exact respects_updateBlock_spared hspared _ x w hx
  obtain ⟨w', hw, hxw⟩ := hagree.of_ok (writeInode_eq lx hx.sound hin')
  have hchains : chainOf (x.putInode ⟨ino, n, .regular mode c'⟩) = Function.update (chainOf v) ino (some c') :=
    chainOf_putInode l h.sound (a.held ino c hchain) hlive moves rfl rfl trivial rfl
  refine ⟨w', hw, hxw, ?_, .inr ⟨c, c', hchain, hchains⟩⟩
  rw [hchains]
  refine (a.moves hchain moves).frame hput freeMap_putInode fun b hb => ?_
  rw [cell_putInode lx hx.sound hin', if_neg]
  rintro rfl
  exact lx.not_isData hin' hb

theorem settles_changing (l : v.Arranged) (hlive : liveInode v ino = .ok ⟨ino, n, .regular mode c⟩)
    (hact : act (⟨ino, n, .regular mode c⟩, y) =
      Holding.onPart c (fun chain => ⟨ino, n, .regular mode chain⟩) chainAct (⟨ino, n, .regular mode c⟩, y))
    (hchain : Chain.Leaves (Chain.Carried B c v) (chainAct (c, y))) :
    ∃ x, Settles B v ino x (left (changing ⟨ino, n, .regular mode c⟩ act) y) := by
  unfold left changing
  rw [hact]
  generalize hrun : chainAct (c, y) = r at hchain
  cases hchain with
  | ok hs =>
    obtain ⟨u, hu, moves⟩ := hs
    obtain ⟨w', hwrite, hsettles⟩ := settles_writeInode h a l hlive hu moves
    rw [Holding.onPart_of_ok hrun]
    dsimp only
    rw [bind_of_ok hwrite]
    exact ⟨_, hsettles⟩
  | error hs =>
    obtain ⟨he, u, hu, moves⟩ := hs
    obtain ⟨w', hwrite, hsettles⟩ := settles_writeInode h a l hlive hu moves
    rw [Holding.onPart_of_error hrun]
    dsimp only
    rw [if_neg (by cases he <;> exact Bool.false_ne_true), bind_of_ok hwrite]
    exact ⟨_, hsettles⟩

omit h a in
theorem left_bind {act : VolumeM α} {next : α → VolumeM β} (hnext : ∀ a w, left (next a) w = w) (v : Volume) :
    left (act >>= next) v = left act v := by
  cases hrun : act v with
  | ok a w =>
    rw [left, bind_of_ok hrun, left, hrun]
    exact hnext a w
  | error e w => rw [left, bind_of_error hrun, left, hrun]

omit h a in
theorem left_of_error {act : VolumeM α} {e : Error} (hrun : act v = .error e w) : left act v = w := by rw [left, hrun]

omit h a in
theorem left_ask (f : Volume → Except Error α) (v : Volume) : left (ask f) v = v := by
  unfold left ask
  cases f v <;> rfl

omit h a in
theorem live_cases (l : v.Arranged) (hv : v.Sound) (hlive : liveInode v ino = .ok i) :
    i.kind ≠ .regular ∨ ∃ n mode c, i = ⟨ino, n, .regular mode c⟩ := by
  obtain ⟨hin, hread, -⟩ := liveInode_eq_ok hlive
  rw [readInode_eq l hv hin] at hread
  obtain ⟨id, n, body⟩ := i
  obtain rfl : id = ino := (Inode.fits_of_readAt hread).2
  cases body with
  | regular mode c => exact .inr ⟨n, mode, c, rfl⟩
  | directory mode c => exact .inl Kind.noConfusion
  | symlink target => exact .inl Kind.noConfusion

theorem settles_live (l : v.Arranged) {rest : Inode → VolumeM α}
    (hrefused : ∀ i, liveInode y ino = .ok i → i.kind ≠ .regular →
      ∃ e, (ask (liveInode · ino) >>= rest) y = .error e y)
    (hfile : ∀ n mode c, liveInode v ino = .ok ⟨ino, n, .regular mode c⟩ →
      ∃ x, Settles B v ino x (left (rest ⟨ino, n, .regular mode c⟩) y)) :
    ∃ x, Settles B v ino x (left (ask (liveInode · ino) >>= rest) y) := by
  have hsame := h.sameReads.liveInode ino
  cases hlive : liveInode v ino with
  | error e =>
    rw [left_of_error (bind_of_error (ask_of_error (hsame.trans hlive)))]
    exact ⟨v, settles_refl h a⟩
  | ok i =>
    rcases live_cases l h.sound hlive with hkind | ⟨n, mode, c, rfl⟩
    · obtain ⟨e, hrun⟩ := hrefused i (hsame.trans hlive) hkind
      rw [left_of_error hrun]
      exact ⟨v, settles_refl h a⟩
    · rw [left, bind_of_ok (ask_of_ok (hsame.trans hlive))]
      exact hfile n mode c hlive

theorem settles_write (l : v.Arranged) (ino : UInt32) (offset : Nat) (data : ByteArray) (append : Bool) :
    ∃ x, Settles B v ino x (left (write ino offset data append) y) :=
  settles_live h a l (fun _ hlive hkind => write_refused hlive hkind offset data append) fun _ _ c hlive =>
    settles_changing h a l hlive rfl (Chain.strives_write h (a.held ino c (chainOf_of_live hlive)) offset data append)

theorem settles_setSize (l : v.Arranged) (ino : UInt32) {size : Nat}
    (hlong : ∀ c, chainOf v ino = some c → c.size.toNat < size) :
    ∃ x, Settles B v ino x (left (setSize ino size) y) := by
  refine settles_live h a l (fun _ hlive hkind => setSize_refused hlive hkind size) fun n mode c hlive => ?_
  have hchain := chainOf_of_live hlive
  rw [left_bind fun _ w => left_ask _ w]
  exact settles_changing h a l hlive rfl (Chain.strives_resize h (a.held ino c hchain) (hlong c hchain))

end

end

/-- A write to an inode, or a size for it beyond the one that is recorded. -/
inductive Lengthens (v : Volume) (ino : UInt32) : Call → Prop
  | write (offset : Nat) (data : ByteArray) (append : Bool) : Lengthens v ino (.write ino offset data append)
  | setSize {size : Nat} (h : ∀ c, chainOf v ino = some c → c.size.toNat < size) :
      Lengthens v ino (.setSize ino size)

theorem Reachable.balanced (h : Reachable v) : Balanced v := by
  obtain ⟨T, hT⟩ := h.consistent
  exact (balanced_iff hT.ledger.sound).mpr hT.accounts

theorem run_eq_left (call : Call) (v : Volume) : (call.run v).2 = left call.perform v := by
  unfold Call.run left
  cases call.perform v <;> rfl

theorem Lengthens.settles {B : Set Nat} {ino : UInt32} {call : Call} (hcall : Lengthens v ino call) (l : v.Arranged)
    (a : v.Accounts (chainOf v)) (h : Rejecting B v v y) : ∃ x, Settles B v ino x (call.run y).2 := by
  rw [run_eq_left]
  cases hcall with
  | write offset data append =>
    rw [Call.perform, left_bind fun _ _ => rfl]
    exact settles_write h a l ino offset data append
  | setSize hlong =>
    rw [Call.perform, left_bind fun _ _ => rfl]
    exact settles_setSize h a l ino hlong

theorem rejecting_withFaults {B : Set Nat} {f : Faults} (h : Troubled v) (hf : f.Rejects v.device.sectorSize B)
    (hB : ∀ b ∈ B, v.superblock.firstDataBlock.toNat ≤ b) :
    Rejecting B (v.withFaults .none) (v.withFaults .none) (v.withFaults f) where
  sound := h.sound
  mapped := (h.faults .none).arranged.dataStart_eq
  behind b hb := by
    have hlow := hB b hb
    rwa [h.fenced.first] at hlow
  rejects := ⟨f, hf, rfl⟩
  cell _ _ := rfl
  busy _ _ := id

/-- Let the books be exact and the device then reject all writes to some blocks behind the metadata. Whatever comes of
a write or a greater size, and so also when it fails, the record of the inode then tells of a chain whose pointers
stand just where its length asks for them, the other records are as before, no block stands at two places, and the map
has as taken just the metadata and what the records reach. -/
theorem failed_growth_balanced {B : Set Nat} {f : Faults} {ino : UInt32} {call : Call} (h : Troubled v)
    (balanced : Balanced v) (hf : f.Rejects v.device.sectorSize B)
    (hB : ∀ b ∈ B, v.superblock.firstDataBlock.toNat ≤ b) (hcall : Lengthens (v.withFaults .none) ino call) :
    let before := v.withFaults .none
    let after := (call.run (v.withFaults f)).2.withFaults .none
    Balanced after ∧
    (∀ c, chainOf before ino = some c → ∃ c', chainOf after ino = some c') ∧
    (∀ j c, chainOf after j = some c → c.Canonical after) ∧
    (∀ j, j ≠ ino → chainOf after j = chainOf before j) ∧
    (∀ i j p q b, Uses after i p b → Uses after j q b → i = j ∧ p = q) ∧
    (∀ b : UInt32, b < after.superblock.blockCount → (after.freeMap.isFree b.toNat = false ↔
      b < after.superblock.firstDataBlock ∨ ∃ ino p, Uses after ino p b)) := by
  intro before after
  have htroubled : Troubled after := .faults .none (.call call (.faults f h))
  obtain ⟨x, s⟩ := hcall.settles (h.faults .none).arranged balanced (rejecting_withFaults h hf hB)
  have hx := s.rejecting.sound
  -- Past its faults the device is that of a run in which nothing was refused.
  have hafter : after = x.withFaults .none := by
    obtain ⟨f', -, hf'⟩ := s.rejecting.rejects
    exact congrArg (·.withFaults .none) hf'
  have hchains : chainOf after = chainOf x := by
    rw [hafter]
    exact chainOf_congr ⟨rfl, Device.readBlock_congr rfl rfl hx.device.readable fun _ => rfl⟩
  have accounts : after.Accounts (chainOf after) := hafter ▸ (balanced_iff hx).mpr s.accounts
  refine ⟨(balanced_iff htroubled.sound).mpr accounts, fun c hc => ?_, fun j c hc => ?_, fun j hj => ?_,
    fun i j p q b => place_unique accounts, fun b hb => taken_iff accounts htroubled.arranged htroubled.sound hb⟩
  · rcases s.chains with hsame | ⟨_, c', -, hupdate⟩
    · exact ⟨c, by rw [hchains, hsame]; exact hc⟩
    · exact ⟨c', by rw [hchains, hupdate, Function.update_self]⟩
  · exact (accounts.held j c hc).canonical htroubled.sound
  · rcases s.chains with hsame | ⟨_, c', -, hupdate⟩
    · rw [hchains, hsame]
    · rw [hchains, hupdate, Function.update_of_ne hj]

theorem setSize_fails {ino n mode : UInt32} {c c' : Chain} {size : Nat} {e : Error}
    (hlive : liveInode v ino = .ok ⟨ino, n, .regular mode c⟩) (hresize : Chain.resize size (c, v) = .error e (c', w))
    (hkind : e.isRefusal = false) : ∃ e' u, (Call.setSize ino size).run v = (.error e', u) := by
  obtain ⟨e', u, hchange⟩ : ∃ e' u, changing ⟨ino, n, .regular mode c⟩ (Inode.resize size) v = .error e' u := by
    unfold changing
    rw [Consistent.inode_resize_eq, Holding.onPart_of_error hresize]
    simp only [hkind]
    cases hwrite : writeInode ⟨ino, n, .regular mode c'⟩ w with
    | ok _ u => exact ⟨e, u, bind_of_ok hwrite⟩
    | error e' u => exact ⟨e', u, bind_of_error hwrite⟩
  exact ⟨e', u, run_of_error (bind_of_error ((bind_of_ok (ask_of_ok hlive)).trans (bind_of_error hchange)))⟩

theorem failed_growth_balanced_byte : ∃ v b e w, Reachable v ∧
    (Call.setSize 2 1025).run (v.withFaults (.ofBlocks v.device.sectorSize [] [b] 0 false)) = (.error e, w) ∧
      Balanced (w.withFaults .none) ∧ ∃ c, chainOf (w.withFaults .none) 2 = some c ∧ c.Canonical (w.withFaults .none) := by
  obtain ⟨v, c, hv, hlive, -, hsize, hcount⟩ := exists_bytes
  obtain ⟨T, hT⟩ := hv.consistent
  have hcalm : v.SameReads (v.withFaults .none) :=
    ⟨rfl, Device.readBlock_congr rfl rfl hT.ledger.sound.device.readable fun _ => rfl⟩
  have hchain : chainOf (v.withFaults .none) 2 = some c := by
    rw [chainOf_congr hcalm]
    exact chainOf_of_live hlive
  have held : c.Held (v.withFaults .none) := hv.balanced.held 2 c hchain
  have hdata := held.isData (k := c.blockCount - 1) (by omega)
  generalize hb : c.pointer (v.withFaults .none).cell (.data (c.blockCount - 1)) = b at hdata
  have hf := Faults.rejects_ofBlocks v.device.sectorSize [b.toNat] false
  have hB : ∀ n ∈ {n | n ∈ [b.toNat]}, v.superblock.firstDataBlock.toNat ≤ n := by
    intro n hn
    obtain rfl := List.mem_singleton.mp hn
    rw [hv.troubled.fenced.first]
    exact hdata.firstData_le
  have h := rejecting_withFaults hv.troubled hf hB
  have hlong : c.size.toNat < 1025 := by rw [hsize]; decide
  obtain ⟨e, u, htail⟩ := Chain.zeroTail_rejected h held (by rw [hsize]; decide) (hb ▸ List.mem_singleton_self _)
  have hlive' := (h.sameReads.liveInode 2).trans ((hcalm.liveInode 2).trans hlive)
  obtain ⟨e', w, hrun⟩ := setSize_fails hlive' (Chain.resize_of_zeroTail (by decide) hlong htail) rfl
  have hlengthens : Lengthens (v.withFaults .none) 2 (.setSize 2 1025) :=
    .setSize fun c' hc' => Option.some.inj (hchain.symm.trans hc') ▸ hlong
  obtain ⟨hbalanced, hkeeps, hcanonical, -⟩ := failed_growth_balanced hv.troubled hv.balanced hf hB hlengthens
  rw [hrun] at hbalanced hkeeps hcanonical
  obtain ⟨c', hc'⟩ := hkeeps c hchain
  exact ⟨v, b.toNat, e', w, hv, hrun, hbalanced, c', hc', hcanonical 2 c' hc'⟩

end FileSystem

end ImageFS

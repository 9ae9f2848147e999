import ImageFS.Proofs.Action

/-!
# Two runs side by side

A relation between volumes that cannot be told apart by reading whole blocks, and that writing a block,
taking one and giving one back keep, is kept by every action that is put together from these: both runs
come to the same outcome and leave related volumes.
-/

set_option autoImplicit false

namespace ImageFS

/-- Two runs with the same outcome that leave related states. -/
inductive Agree {σ α : Type} (R : σ → σ → Prop) : EStateM.Result Error σ α → EStateM.Result Error σ α → Prop
  | ok {a : α} {s t : σ} : R s t → Agree R (.ok a s) (.ok a t)
  | error {e : Error} {s t : σ} : R s t → Agree R (.error e s) (.error e t)

/-- An action that runs alike from related states. -/
def Respects {σ α : Type} (R : σ → σ → Prop) (act : EStateM Error σ α) : Prop := ∀ s t, R s t → Agree R (act s) (act t)

section

variable {σ α β : Type} {R : σ → σ → Prop} {act : EStateM Error σ α} {next : α → EStateM Error σ β}
  {handler : Error → EStateM Error σ α} {s t : σ}

theorem Agree.cases {r r' : EStateM.Result Error σ α} (h : Agree R r r') :
    (∃ a s t, r = .ok a s ∧ r' = .ok a t ∧ R s t) ∨ ∃ e s t, r = .error e s ∧ r' = .error e t ∧ R s t := by
  cases h with
  | ok hst => exact .inl ⟨_, _, _, rfl, rfl, hst⟩
  | error hst => exact .inr ⟨_, _, _, rfl, rfl, hst⟩

theorem Agree.of_ok {r r' : EStateM.Result Error σ α} {a : α} (h : Agree R r r') (hr : r = .ok a s) :
    ∃ t, r' = .ok a t ∧ R s t := by
  cases h with
  | ok hst =>
    cases hr
    exact ⟨_, rfl, hst⟩
  | error => cases hr

theorem Agree.of_error {r r' : EStateM.Result Error σ α} {e : Error} (h : Agree R r r') (hr : r = .error e s) :
    ∃ t, r' = .error e t ∧ R s t := by
  cases h with
  | ok => cases hr
  | error hst =>
    cases hr
    exact ⟨_, rfl, hst⟩

theorem Agree.imp {R' : σ → σ → Prop} {r r' : EStateM.Result Error σ α} (h : Agree R r r')
    (hR : ∀ s t, R s t → R' s t) : Agree R' r r' := by
  cases h with
  | ok hst => exact .ok (hR _ _ hst)
  | error hst => exact .error (hR _ _ hst)

theorem Agree.bind (h : Agree R (act s) (act t))
    (hnext : ∀ a s' t', act s = .ok a s' → R s' t' → Agree R (next a s') (next a t')) :
    Agree R ((act >>= next) s) ((act >>= next) t) := by
  rcases h.cases with ⟨a, s', t', hs, ht, hst'⟩ | ⟨e, s', t', hs, ht, hst'⟩
  · rw [bind_of_ok hs, bind_of_ok ht]
    exact hnext a s' t' hs hst'
  · rw [bind_of_error hs, bind_of_error ht]
    exact .error hst'

theorem Agree.tryCatch (h : Agree R (act s) (act t))
    (hhandler : ∀ e s' t', act s = .error e s' → R s' t' → Agree R (handler e s') (handler e t')) :
    Agree R (tryCatch act handler s) (tryCatch act handler t) := by
  rcases h.cases with ⟨a, s', t', hs, ht, hst'⟩ | ⟨e, s', t', hs, ht, hst'⟩
  · rw [catch_of_ok hs, catch_of_ok ht]
    exact .ok hst'
  · rw [catch_of_error hs, catch_of_error ht]
    exact hhandler e s' t' hs hst'

end

namespace Respects

section

variable {σ α β : Type} {R : σ → σ → Prop} {act : EStateM Error σ α} {next : α → EStateM Error σ β} {s t : σ}

theorem cases (h : Respects R act) (hst : R s t) :
    (∃ a s' t', act s = .ok a s' ∧ act t = .ok a t' ∧ R s' t') ∨
      ∃ e s' t', act s = .error e s' ∧ act t = .error e t' ∧ R s' t' :=
  (h s t hst).cases

theorem pure (a : α) : Respects R (Pure.pure a : EStateM Error σ α) := fun _ _ hst => .ok hst

theorem throw (e : Error) : Respects R (throw e : EStateM Error σ α) := fun _ _ hst => .error hst

theorem bind (h : Respects R act) (hnext : ∀ a, Respects R (next a)) : Respects R (act >>= next) := fun s t hst =>
  (h s t hst).bind fun a s' t' _ hst' => hnext a s' t' hst'

theorem tryCatch {handler : Error → EStateM Error σ α} (h : Respects R act) (hhandler : ∀ e, Respects R (handler e)) :
    Respects R (tryCatch act handler) := fun s t hst =>
  (h s t hst).tryCatch fun e s' t' _ hst' => hhandler e s' t' hst'

theorem ite {c : Prop} [Decidable c] {other : EStateM Error σ α} (h : Respects R act) (hother : Respects R other) :
    Respects R (if c then act else other) := by
  split
  · exact h
  · exact hother

theorem guard {c : Prop} [Decidable c] {act : EStateM Error σ PUnit} {next : PUnit → EStateM Error σ β}
    (h : Respects R act) (hnext : ∀ u, Respects R (next u)) : Respects R (if c then act >>= next else next ⟨⟩) :=
  ite (h.bind hnext) (hnext _)

theorem forM {l : List β} {each : β → EStateM Error σ PUnit} (h : ∀ b, Respects R (each b)) :
    Respects R (l.forM each) := by
  induction l with
  | nil => exact pure _
  | cons b l ih => exact (h b).bind fun _ => ih

end

end Respects

namespace Volume

/-- The superblock and all blocks read the same on both volumes. -/
structure SameReads (v w : Volume) : Prop where
  superblock : w.superblock = v.superblock
  reads : ∀ b, w.readBlock b = v.readBlock b

structure Indistinct (v w : Volume) : Prop extends SameReads v w where
  freeMap : w.freeMap = v.freeMap
  flush : w.device.flush = v.device.flush

theorem Indistinct.refl (v : Volume) : Indistinct v v := ⟨⟨rfl, fun _ => rfl⟩, rfl, rfl⟩

namespace SameReads

variable {v w : Volume} (h : SameReads v w)

include h

theorem readPointer (b : UInt32) (slot : Nat) : w.readPointer b slot = v.readPointer b slot := by
  rw [Volume.readPointer, Volume.readPointer, h.reads]

theorem lookup (c : Chain) (slot : Slot) : c.lookup w slot = c.lookup v slot := by
  cases slot <;> simp only [Chain.lookup, h.readPointer]

theorem blockAt (c : Chain) (block : Nat) : c.blockAt w block = c.blockAt v block := by
  rw [Chain.blockAt, Chain.blockAt, h.lookup]

theorem inodeBlock (ino : UInt32) : w.inodeBlock ino = v.inodeBlock ino := by
  rw [Volume.inodeBlock, Volume.inodeBlock, h.superblock]

theorem checkInode (ino : UInt32) : w.checkInode ino = v.checkInode ino := by
  rw [Volume.checkInode, Volume.checkInode, h.superblock]

theorem readInode (ino : UInt32) : w.readInode ino = v.readInode ino := by
  rw [Volume.readInode, Volume.readInode, h.checkInode, h.inodeBlock, h.reads]

theorem tableBlocks : w.tableBlocks = v.tableBlocks := by
  rw [Volume.tableBlocks, Volume.tableBlocks, h.superblock]

theorem freeInodesIn (k : Nat) : w.freeInodesIn k = v.freeInodesIn k := by
  rw [Volume.freeInodesIn, Volume.freeInodesIn, h.superblock, h.reads]

theorem firstFreeInode (blocks : List Nat) : w.firstFreeInode blocks = v.firstFreeInode blocks := by
  induction blocks with
  | nil => rfl
  | cons k rest ih => rw [Volume.firstFreeInode, Volume.firstFreeInode, h.freeInodesIn, ih]

theorem allocateInode : w.allocateInode = v.allocateInode := by
  rw [Volume.allocateInode, Volume.allocateInode, h.tableBlocks, h.firstFreeInode]

theorem freeInodes : w.freeInodes = v.freeInodes := by
  rw [Volume.freeInodes, Volume.freeInodes, freeNumbers, freeNumbers, h.tableBlocks, funext h.freeInodesIn]

end SameReads

end Volume

/-- Volumes related by `R` are indistinct, and the actions that change a volume keep `R`. -/
class Blockwise (R : Volume → Volume → Prop) : Prop where
  indistinct {v w : Volume} : R v w → v.Indistinct w
  writeBlock (b : UInt32) (block : Block) : Respects R (Volume.writeBlock b block)
  allocate : Respects R Volume.allocate
  free (b : UInt32) : Respects R (Volume.free b)

def InHand {β : Type} (R : Volume → Volume → Prop) (s t : β × Volume) : Prop := s.1 = t.1 ∧ R s.2 t.2

theorem Agree.ask {α β : Type} {R : Volume → Volume → Prop} {v w : Volume} {g : Volume → Except Error α}
    {next : α → VolumeM β} (hvw : R v w) (hg : g w = g v)
    (hnext : ∀ a, g v = .ok a → Agree R (next a v) (next a w)) :
    Agree R ((Volume.ask g >>= next) v) ((Volume.ask g >>= next) w) := by
  cases hv : g v with
  | ok a =>
    rw [bind_of_ok (Volume.ask_of_ok hv), bind_of_ok (Volume.ask_of_ok (hg.trans hv))]
    exact hnext a hv
  | error e =>
    rw [bind_of_error (Volume.ask_of_error hv), bind_of_error (Volume.ask_of_error (hg.trans hv))]
    exact .error hvw

namespace Respects

open Holding

variable {α β γ : Type} {R : Volume → Volume → Prop} {v w : Volume}

theorem cases_inHand {act : Holding β α} (h : Respects (InHand R) act) (b : β) (hvw : R v w) :
    (∃ a b' v' w', act (b, v) = .ok a (b', v') ∧ act (b, w) = .ok a (b', w') ∧ R v' w') ∨
      ∃ e b' v' w', act (b, v) = .error e (b', v') ∧ act (b, w) = .error e (b', w') ∧ R v' w' := by
  rcases h.cases (show InHand R (b, v) (b, w) from ⟨rfl, hvw⟩) with
    ⟨a, ⟨b', v'⟩, ⟨_, w'⟩, hv, hw, rfl, hvw'⟩ | ⟨e, ⟨b', v'⟩, ⟨_, w'⟩, hv, hw, rfl, hvw'⟩
  · exact .inl ⟨a, b', v', w', hv, hw, hvw'⟩
  · exact .inr ⟨e, b', v', w', hv, hw, hvw'⟩

theorem ask_of_eq {g : Volume → Except Error α} (h : ∀ v w, R v w → g w = g v) : Respects R (Volume.ask g) := by
  intro v w hvw
  cases hv : g v with
  | ok a =>
    rw [Volume.ask_of_ok hv, Volume.ask_of_ok ((h v w hvw).trans hv)]
    exact .ok hvw
  | error e =>
    rw [Volume.ask_of_error hv, Volume.ask_of_error ((h v w hvw).trans hv)]
    exact .error hvw

theorem ask [Blockwise R] {g : Volume → Except Error α} (h : ∀ {v w : Volume}, v.Indistinct w → g w = g v) :
    Respects R (Volume.ask g) :=
  ask_of_eq fun _ _ hvw => h (Blockwise.indistinct hvw)

theorem onVolume {act : VolumeM α} (h : Respects R act) :
    Respects (InHand R) (Holding.onVolume act : Holding β α) := by
  rintro ⟨b, v⟩ ⟨_, w⟩ ⟨rfl, hvw⟩
  rcases h.cases hvw with ⟨a, v', w', hv, hw, hvw'⟩ | ⟨e, v', w', hv, hw, hvw'⟩
  · rw [onVolume_of_ok hv, onVolume_of_ok hw]
    exact .ok ⟨rfl, hvw'⟩
  · rw [onVolume_of_error hv, onVolume_of_error hw]
    exact .error ⟨rfl, hvw'⟩

theorem update {act : β → VolumeM β} (h : ∀ b, Respects R (act b)) : Respects (InHand R) (Holding.update act) := by
  rintro ⟨b, v⟩ ⟨_, w⟩ ⟨rfl, hvw⟩
  rcases (h b).cases hvw with ⟨a, v', w', hv, hw, hvw'⟩ | ⟨e, v', w', hv, hw, hvw'⟩
  · rw [update_of_ok hv, update_of_ok hw]
    exact .ok ⟨rfl, hvw'⟩
  · rw [update_of_error hv, update_of_error hw]
    exact .error ⟨rfl, hvw'⟩

theorem onPart {part : γ} {rebuild : γ → β} {act : Holding γ α} (h : Respects (InHand R) act) :
    Respects (InHand R) (Holding.onPart part rebuild act) := by
  rintro ⟨b, v⟩ ⟨_, w⟩ ⟨rfl, hvw⟩
  rcases h.cases_inHand part hvw with ⟨a, c, v', w', hv, hw, hvw'⟩ | ⟨e, c, v', w', hv, hw, hvw'⟩
  · rw [onPart_of_ok hv, onPart_of_ok hw]
    exact .ok ⟨rfl, hvw'⟩
  · rw [onPart_of_error hv, onPart_of_error hw]
    exact .error ⟨rfl, hvw'⟩

theorem object : Respects (InHand R) (Holding.object : Holding β β) := by
  rintro ⟨b, v⟩ ⟨_, w⟩ ⟨rfl, hvw⟩
  exact .ok ⟨rfl, hvw⟩

theorem put (b : β) : Respects (InHand R) (Holding.put b) := fun _ _ hst => .ok ⟨rfl, hst.2⟩

end Respects

theorem Blockwise.of_updateByte {R : Volume → Volume → Prop} (indistinct : ∀ v w, R v w → v.Indistinct w)
    (writeBlock : ∀ b block, Respects R (Volume.writeBlock b block))
    (updateByte : ∀ b f, Respects R (Volume.modifyMap (·.updateByte b f))) : Blockwise R := by
  have writeMapPart : ∀ b, Respects R (Volume.writeMapPart b) := fun b =>
    .bind (.ask_of_eq fun v w h => by rw [(indistinct v w h).freeMap]) fun _ => writeBlock _ _
  refine ⟨fun h => indistinct _ _ h, writeBlock, ?_, fun b => ?_⟩
  · refine .bind (.ask_of_eq fun v w h => by rw [(indistinct v w h).freeMap]) fun low => ?_
    cases low with
    | none => exact .throw _
    | some b =>
      refine .bind (updateByte b _) fun _ => .bind (.tryCatch (writeMapPart b) fun e => ?_) fun _ => .pure _
      exact .bind (updateByte b _) fun _ => .throw e
  · exact .bind (.ask_of_eq fun v w h => by rw [(indistinct v w h).freeMap]) fun _ =>
      .ite (.bind (updateByte b.toNat _) fun _ => writeMapPart b.toNat) (.pure _)

namespace Volume

variable {α : Type} {R : Volume → Volume → Prop} [Blockwise R]

theorem respects_updateBlock (b : UInt32) (f : Block → Block) : Respects R (updateBlock b f) :=
  .bind (.ask fun h => h.reads b) fun _ => Blockwise.writeBlock b _

theorem respects_writePointer (b : UInt32) (slot : Nat) (target : UInt32) : Respects R (writePointer b slot target) :=
  .bind (.ask fun _ => rfl) fun _ => respects_updateBlock b _

theorem respects_release (b : UInt32) : Respects R (release b) := .tryCatch (Blockwise.free b) fun _ => .pure _

theorem respects_withFresh {use : UInt32 → VolumeM α} (h : ∀ b, Respects R (use b)) : Respects R (withFresh use) :=
  .bind Blockwise.allocate fun b => .tryCatch (.bind (Blockwise.writeBlock b _) fun _ => h b) fun e =>
    .bind (respects_release b) fun _ => .throw e

theorem respects_writeInode (i : Inode) : Respects R (writeInode i) :=
  .bind (.ask fun h => h.checkInode i.id) fun _ => .bind (.ask fun h => congrArg Except.ok (h.inodeBlock i.id)) fun _ =>
    respects_updateBlock _ _

theorem respects_writeMap : Respects R writeMap :=
  .bind (.ask fun h => by rw [h.superblock, h.freeMap]) fun _ => .forM fun _ => Blockwise.writeBlock _ _

theorem respects_layOut : Respects R layOut :=
  .bind (Blockwise.writeBlock _ _) fun _ => .bind (.ask fun h => congrArg Except.ok h.superblock) fun _ =>
    .bind (Blockwise.writeBlock _ _) fun _ => .bind respects_writeMap fun _ =>
      .bind (.forM fun _ => Blockwise.writeBlock _ _) fun _ => .bind (respects_writeInode _) fun _ =>
        .ask fun h => by rw [h.flush]

end Volume

end ImageFS

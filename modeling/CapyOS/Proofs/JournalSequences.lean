import CapyOS.Proofs.JournalRuns

namespace CapyOS.Proofs
open Lib Function List

/-- Numbers handed out are below the counter, and no two transactions have one number. -/
structure Numbered (s : JournalWorld) : Prop where
  below : ∀ q ∈ s.committed, q.toNat < s.journal.currentSequence.toNat
  begun : ∀ i t, s.txns i = some t → t.sequence.toNat < s.journal.currentSequence.toNat
  apart : ∀ i k t u, s.txns i = some t → s.txns k = some u → i ≠ k → t.sequence ≠ u.sequence
  unused : ∀ i t, s.txns i = some t → t.committed = false → t.sequence ∉ s.committed
  once : s.committed.Nodup

def SequenceCovers (j : Journal) : Prop :=
  j.currentSequence.toNat ≤ j.sb.sequence.toNat + 1 ∧ j.sb.sequence.toNat + 1 < 2 ^ 64

def KeepsCounting (s : JournalWorld) : JournalCall → Prop
  | .begin _ => s.journal.currentSequence.toNat + 1 < 2 ^ 64
  | .abort i => ∀ t, s.txns i = some t → t.committed = false
  | .checkpoint => s.journal.dirty = true → SequenceCovers s.journal
  | .replay _ => journalNeedsReplay s.journal = true → SequenceCovers s.journal
  | .init startBlock _ => ∀ b, blockDeviceRead s.dev (u32 startBlock) = some b →
      s.journal.currentSequence.toNat ≤ (readSuperblock b).sequence.toNat
  | _ => True

section
variable {s : JournalWorld}

theorem Numbered.advance (h : Numbered s) {d : BlockDevice} {j : Journal}
    (hj : s.journal.currentSequence.toNat ≤ j.currentSequence.toNat) : Numbered { s with dev := d, journal := j } :=
  ⟨fun q hq => Nat.lt_of_lt_of_le (h.below q hq) hj, fun i t ht => Nat.lt_of_lt_of_le (h.begun i t ht) hj,
    h.apart, h.unused, h.once⟩

/-- A transaction is replaced by one of the same number that is no more open. -/
theorem Numbered.replace (h : Numbered s) {i : Nat} {t u : Transaction} (ht : s.txns i = some t)
    (hseq : u.sequence = t.sequence) (hopen : u.committed = false → t.committed = false) :
    Numbered { s with txns := update s.txns i (some u) } := by
  have hold : ∀ k v, update s.txns i (some u) k = some v →
      ∃ w, s.txns k = some w ∧ v.sequence = w.sequence ∧ (v.committed = false → w.committed = false) := by
    intro k v hv
    by_cases hk : k = i
    · subst hk
      rw [update_self] at hv
      cases hv
      exact ⟨t, ht, hseq, hopen⟩
    · rw [update_of_ne hk] at hv
      exact ⟨v, hv, rfl, id⟩
  refine ⟨h.below, fun k v hv => ?_, fun k l v w hv hw hne => ?_, fun k v hv hc => ?_, h.once⟩
  · obtain ⟨v', hv', hs, -⟩ := hold k v hv
    rw [hs]
    exact h.begun k v' hv'
  · obtain ⟨v', hv', hs, -⟩ := hold k v hv
    obtain ⟨w', hw', hs', -⟩ := hold l w hw
    rw [hs, hs']
    exact h.apart k l v' w' hv' hw' hne
  · obtain ⟨v', hv', hs, hc'⟩ := hold k v hv
    rw [hs]
    exact h.unused k v' hv' (hc' hc)

theorem Numbered.begin (h : Numbered s) (i : Nat) (hroom : s.journal.currentSequence.toNat + 1 < 2 ^ 64) :
    Numbered { s with
      journal := (journalBegin s.journal).1
      txns := update s.txns i (some (journalBegin s.journal).2) } := by
  have hnext : (journalBegin s.journal).1.currentSequence.toNat = s.journal.currentSequence.toNat + 1 := by
    change (s.journal.currentSequence + 1).toNat = _
    rw [BitVec.toNat_add]
    exact Nat.mod_eq_of_lt hroom
  have hnew : ∀ k v, k ≠ i → s.txns k = some v → (journalBegin s.journal).2.sequence ≠ v.sequence := by
    intro k v _ hv heq
    have hlt := h.begun k v hv
    rw [← heq] at hlt
    exact Nat.lt_irrefl _ hlt
  have hcases : ∀ k v, update s.txns i (some (journalBegin s.journal).2) k = some v →
      (k = i ∧ v = (journalBegin s.journal).2) ∨ (k ≠ i ∧ s.txns k = some v) := by
    intro k v hv
    by_cases hk : k = i
    · subst hk
      rw [update_self] at hv
      cases hv
      exact .inl ⟨rfl, rfl⟩
    · rw [update_of_ne hk] at hv
      exact .inr ⟨hk, hv⟩
  refine ⟨fun q hq => ?_, fun k v hv => ?_, fun k l v w hv hw hne => ?_, fun k v hv hc => ?_, h.once⟩
  · have hlt := h.below q hq
    dsimp only
    omega
  · dsimp only
    obtain ⟨-, rfl⟩ | ⟨-, hold⟩ := hcases k v hv
    · rw [hnext]
      exact Nat.lt_succ_self _
    · have hlt := h.begun k v hold
      omega
  · obtain ⟨hki, rfl⟩ | ⟨hki, hold⟩ := hcases k v hv
    · obtain ⟨hli, rfl⟩ | ⟨hli, hold'⟩ := hcases l w hw
      · exact absurd (hki.trans hli.symm) hne
      · exact hnew l w hli hold'
    · obtain ⟨hli, rfl⟩ | ⟨hli, hold'⟩ := hcases l w hw
      · exact (hnew k v hki hold).symm
      · exact h.apart k l v w hold hold' hne
  · obtain ⟨-, rfl⟩ | ⟨-, hold⟩ := hcases k v hv
    · intro hmem
      exact Nat.lt_irrefl _ (h.below _ hmem)
    · exact h.unused k v hold hc

theorem commit_numbers (heap : Heap) (hmac : Hmac) (d : BlockDevice) (j : Journal) (t : Transaction) :
    (journalCommit heap hmac d j t).2.1.currentSequence = j.currentSequence ∧
      (((journalCommit heap hmac d j t).1 = 0 ∧ t.committed = false ∧
        (journalCommit heap hmac d j t).2.2.1 = { t with hasBuffer := false, committed := true }) ∨
      ((journalCommit heap hmac d j t).1 ≠ 0 ∧ (journalCommit heap hmac d j t).2.2.1 = t)) := by
  unfold journalCommit
  split
  · exact ⟨rfl, .inr ⟨(by decide : (-1 : Int) ≠ 0), rfl⟩⟩
  · next hopen =>
    split
    · exact ⟨rfl, .inr ⟨(by decide : (-1 : Int) ≠ 0), rfl⟩⟩
    · split
      · exact ⟨rfl, .inr ⟨(by decide : (-1 : Int) ≠ 0), rfl⟩⟩
      · exact ⟨rfl, .inl ⟨rfl, by simpa using hopen, rfl⟩⟩

theorem Numbered.commit (h : Numbered s) (heap : Heap) (hmac : Hmac) {i : Nat} {t : Transaction}
    (ht : s.txns i = some t) : Numbered (JournalCall.run heap hmac s (.commit i)) := by
  obtain ⟨hcounter, hcase⟩ := commit_numbers heap hmac s.dev s.journal t
  simp only [JournalCall.run, ht]
  obtain ⟨hrc, hopen, hafter⟩ | ⟨hrc, hafter⟩ := hcase
  · rw [if_pos hrc, hafter]
    have hreplaced := h.replace (u := { t with hasBuffer := false, committed := true }) ht rfl nofun
    have hmoved := hreplaced.advance (d := s.dev.apply (journalCommit heap hmac s.dev s.journal t).2.2.2)
      (j := (journalCommit heap hmac s.dev s.journal t).2.1) (Nat.le_of_eq (by rw [hcounter]))
    have hnew : t.sequence ∉ s.committed := h.unused i t ht hopen
    refine ⟨fun q hq => ?_, hmoved.begun, hmoved.apart, fun k v hv hc hmem => ?_, ?_⟩
    · cases mem_append.mp hq with
      | inl hold => exact hmoved.below q hold
      | inr hlast =>
        rw [mem_singleton.mp hlast, hcounter]
        exact h.begun i t ht
    · dsimp only at hv hmem
      cases mem_append.mp hmem with
      | inl hold => exact hmoved.unused k v hv hc hold
      | inr hlast =>
        have hk : k ≠ i := by
          rintro rfl
          rw [update_self] at hv
          cases hv
          cases hc
        rw [update_of_ne hk] at hv
        exact h.apart k i v t hv ht hk (mem_singleton.mp hlast)
    · exact nodup_append.mpr ⟨h.once, nodup_singleton _, fun a ha b hb heq =>
        hnew (mem_singleton.mp hb ▸ heq ▸ ha)⟩
  · rw [if_neg hrc, hafter]
    exact (h.replace ht rfl id).advance (Nat.le_of_eq (by rw [hcounter]))

theorem logBlock_numbers (heap : Heap) (d : BlockDevice) (t : Transaction) (target : BitVec 64)
    (data : Bytes) (offset length : BitVec 32) : (journalLogBlock heap d t target data offset length).2.sequence = t.sequence ∧
      (journalLogBlock heap d t target data offset length).2.committed = t.committed := by
  unfold journalLogBlock
  split
  · exact ⟨rfl, rfl⟩
  · dsimp only
    split <;> exact ⟨rfl, rfl⟩

theorem covers_next {j : Journal} (h : SequenceCovers j) : j.currentSequence.toNat ≤ (j.sb.sequence + 1).toNat := by
  rw [BitVec.toNat_add]
  exact Nat.le_trans h.1 (Nat.le_of_eq (Nat.mod_eq_of_lt h.2).symm)

theorem checkpoint_counter (heap : Heap) (d : BlockDevice) (j : Journal) (h : j.dirty = true → SequenceCovers j) :
    j.currentSequence.toNat ≤ (journalCheckpoint heap d j).journal.currentSequence.toNat := by
  unfold journalCheckpoint
  split
  · exact Nat.le_refl _
  · next hdirty =>
    dsimp only
    split
    · exact Nat.le_refl _
    · exact covers_next (h (by simpa using hdirty))

theorem replay_counter (heap : Heap) (hmac : Hmac) (fuel : Nat) (d : BlockDevice) (j : Journal)
    (h : journalNeedsReplay j = true → SequenceCovers j) :
    j.currentSequence.toNat ≤ (journalReplay heap hmac fuel d j).journal.currentSequence.toNat := by
  unfold journalReplay
  split
  · exact Nat.le_refl _
  · next hneeds =>
    split
    · exact Nat.le_refl _
    · split
      · exact Nat.le_refl _
      · split
        · exact Nat.le_refl _
        · dsimp only
          split
          · exact covers_next (h (by simpa using hneeds))
          · exact Nat.le_refl _

theorem init_counter (heap : Heap) (d : BlockDevice) (j : Journal) (startBlock blockCount : Nat)
    (h : ∀ b, blockDeviceRead d (u32 startBlock) = some b → j.currentSequence.toNat ≤ (readSuperblock b).sequence.toNat) :
    j.currentSequence.toNat ≤ (journalInit heap d j startBlock blockCount).2.currentSequence.toNat := by
  unfold journalInit
  dsimp only
  split
  · exact Nat.le_refl _
  · split
    · exact Nat.le_refl _
    · next b hread =>
      split
      · exact Nat.le_refl _
      · split
        · exact Nat.le_refl _
        · exact h b hread

theorem Numbered.step (heap : Heap) (hmac : Hmac) (h : Numbered s) (call : JournalCall)
    (hcount : KeepsCounting s call) : Numbered (call.run heap hmac s) := by
  cases call with
  | begin i => exact h.begin i hcount
  | logBlock i target data offset length =>
    simp only [JournalCall.run]
    split
    · exact h
    · next t ht =>
      obtain ⟨hseq, hopen⟩ := logBlock_numbers heap s.dev t target data offset length
      exact h.replace ht hseq fun hc => hopen ▸ hc
  | commit i =>
    cases ht : s.txns i with
    | none =>
      simp only [JournalCall.run, ht]
      exact h
    | some t => exact h.commit heap hmac ht
  | abort i =>
    simp only [JournalCall.run]
    split
    · exact h
    · next t ht => exact h.replace ht rfl fun _ => hcount t ht
  | checkpoint => exact h.advance (checkpoint_counter heap s.dev s.journal hcount)
  | replay fuel => exact h.advance (replay_counter heap hmac fuel s.dev s.journal hcount)
  | init startBlock blockCount =>
    exact h.advance (init_counter heap s.dev s.journal startBlock blockCount hcount)
  | setHmacKey key =>
    refine h.advance (Nat.le_of_eq ?_)
    unfold journalSetHmacKey
    split
    · rfl
    · split <;> rfl

end

def CountsOn (heap : Heap) (hmac : Hmac) (s : JournalWorld) : List JournalCall → Prop
  | [] => True
  | call :: calls => KeepsCounting s call ∧ CountsOn heap hmac (call.run heap hmac s) calls

theorem Numbered.run {heap : Heap} {hmac : Hmac} {s : JournalWorld} (h : Numbered s)
    (calls : List JournalCall) (hcount : CountsOn heap hmac s calls) : Numbered (journalRun heap hmac s calls) := by
  induction calls generalizing s with
  | nil => exact h
  | cons call calls ih => exact ih (h.step heap hmac call hcount.1) hcount.2

/-- In a run that keeps counting, no two committed transactions have one sequence number. -/
theorem sequences_not_reused (heap : Heap) (hmac : Hmac) (d : BlockDevice) (j : Journal)
    (calls : List JournalCall) (hcount : CountsOn heap hmac (journalWorld d j) calls) :
    (journalRun heap hmac (journalWorld d j) calls).committed.Nodup := by
  have hstart : Numbered (journalWorld d j) := ⟨nofun, nofun, nofun, nofun, nodup_nil⟩
  exact (hstart.run calls hcount).once

def freshJournal : JournalWorld :=
  let r := journalFormat ampleHeap smallDevice blankJournal 0 6
  journalWorld (smallDevice.apply r.writes) r.journal

theorem one_at_a_time_not_reused :
    (journalRun ampleHeap (fun _ _ => zeros) freshJournal
      [.begin 0, .commit 0, .checkpoint, .begin 1, .commit 1]).committed.Nodup := by
  refine sequences_not_reused ampleHeap (fun _ _ => zeros) _ _ _ ⟨?_, trivial, fun _ => ⟨?_, ?_⟩, ?_, trivial,
    trivial⟩
  · change _ + 1 < 2 ^ 64
    decide
  · decide
  · decide
  · change _ + 1 < 2 ^ 64
    decide

/-- Two transactions, a checkpoint, and the third has the number of the second. -/
theorem checkpoint_reuses_sequence :
    (journalRun ampleHeap (fun _ _ => zeros) freshJournal
      [.begin 0, .commit 0, .begin 1, .commit 1, .checkpoint, .begin 2, .commit 2]).committed =
        [1, 2, 2] ∧
      ¬ (journalRun ampleHeap (fun _ _ => zeros) freshJournal
        [.begin 0, .commit 0, .begin 1, .commit 1, .checkpoint, .begin 2, .commit 2]).committed.Nodup := by
  have hcommitted : (journalRun ampleHeap (fun _ _ => zeros) freshJournal
      [.begin 0, .commit 0, .begin 1, .commit 1, .checkpoint, .begin 2, .commit 2]).committed =
        [1, 2, 2] := by decide
  refine ⟨hcommitted, ?_⟩
  rw [hcommitted]
  decide

end CapyOS.Proofs

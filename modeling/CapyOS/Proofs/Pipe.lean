import CapyOS.Kernel.Pipe

namespace CapyOS.Proofs
open Lib List
variable {p : PipeChannel} {t : PipeTrace}

/-! ## The ring of a pipe -/

/-- The bytes that wait in a pipe. -/
def waiting (p : PipeChannel) : List UInt8 := held p.buffer p.readPos p.count

structure PipeSound (p : PipeChannel) : Prop where
  room : p.count ≤ pipeBufSize
  next : p.writePos = cell p.readPos p.count

theorem cell_cell (p : Fin pipeBufSize) (i k : Nat) : cell (cell p i) k = cell p (i + k) := by
  apply Fin.ext
  simp only [cell, Fin.ofNat, Nat.mod_add_mod, Nat.add_assoc]

theorem held_drop (q : Fin pipeBufSize → UInt8) (p : Fin pipeBufSize) (i count : Nat) :
    held q p (i + count) = held q p i ++ held q (cell p i) count := by
  rw [held, range_add, map_append, map_map]
  congr 1
  refine map_congr_left fun k _ => ?_
  exact congrArg q (cell_cell p i k).symm

theorem held_store (src : List UInt8) (q : Fin pipeBufSize → UInt8) (p w : Fin pipeBufSize) (i count : Nat)
    (hw : cell w i = cell p count) (hroom : count + src.length ≤ pipeBufSize) :
    held (pipeStore w i src q) p (count + src.length) = held q p count ++ src := by
  induction src generalizing q i count with
  | nil => simp [pipeStore]
  | cons c src ih =>
    rw [length_cons] at hroom ⊢
    have hnext : cell w (i + 1) = cell p (count + 1) := by rw [cell_succ, hw, ← cell_succ]
    have hrest := ih (Function.update q (cell w i) c) (i + 1) (count + 1) hnext (by omega)
    rw [pipeStore, Nat.add_comm src.length 1, ← Nat.add_assoc, hrest, hw, held_push q p (by omega) c]
    simp

theorem fresh_sound : PipeSound pipeFresh where
  room := Nat.zero_le _
  next := by decide

theorem read_sound (h : PipeSound p) (len : Nat) : PipeSound (p.read len).2 ∧
    waiting p = (p.read len).1.getD [] ++ waiting (p.read len).2 := by
  unfold PipeChannel.read
  split
  · exact ⟨h, rfl⟩
  split
  next hempty =>
    refine ⟨h, ?_⟩
    have hnone : waiting p = [] := by simp [waiting, held, hempty]
    split <;> simp [hnone]
  next hsome =>
    dsimp only
    generalize havail : (if p.count > len then len else p.count) = avail
    have hle : avail ≤ p.count := by
      rw [← havail]
      split <;> omega
    refine ⟨⟨?_, ?_⟩, ?_⟩
    · have hroom := h.room
      dsimp only
      omega
    · have hcount : avail + (p.count - avail) = p.count := Nat.add_sub_cancel' hle
      rw [cell_cell, hcount]
      exact h.next
    · have hsplit := held_drop p.buffer p.readPos avail (p.count - avail)
      rw [Nat.add_sub_cancel' hle] at hsplit
      exact hsplit

theorem write_sound (h : PipeSound p) (src : List UInt8) : PipeSound (p.write src).2 ∧
    waiting (p.write src).2 = waiting p ++ src.take ((p.write src).1.getD 0) := by
  unfold PipeChannel.write
  split
  · exact ⟨h, by simp⟩
  split
  · exact ⟨h, by simp⟩
  dsimp only
  split
  · exact ⟨h, by simp⟩
  next hspace =>
    dsimp only [Option.getD_some]
    generalize hwrite : (if src.length % 2 ^ 32 > pipeBufSize - p.count then pipeBufSize - p.count
      else src.length % 2 ^ 32) = n
    have hroom := h.room
    have hle : n ≤ src.length ∧ p.count + n ≤ pipeBufSize := by
      have hmod := Nat.mod_le src.length (2 ^ 32)
      rw [← hwrite]
      split <;> omega
    have hlen : (src.take n).length = n := length_take_of_le hle.1
    refine ⟨⟨hle.2, ?_⟩, ?_⟩
    · rw [h.next, cell_cell]
    · have hstore := held_store (src.take n) p.buffer p.readPos p.writePos 0 p.count
        (by rw [cell_zero, h.next]) (by rw [hlen]; exact hle.2)
      rw [hlen] at hstore
      exact hstore

/-! ## Runs -/

structure TraceSound (t : PipeTrace) : Prop where
  pipe : PipeSound t.pipe
  fifo : t.written = t.returned ++ waiting t.pipe

theorem call_sound (h : TraceSound t) (op : PipeOp) : TraceSound (t.step op) := by
  cases op with
  | read len =>
    obtain ⟨hsound, hwaiting⟩ := read_sound h.pipe len
    refine ⟨hsound, ?_⟩
    rw [PipeTrace.step, h.fifo, hwaiting, append_assoc]
  | write src =>
    obtain ⟨hsound, hwaiting⟩ := write_sound h.pipe src
    refine ⟨hsound, ?_⟩
    rw [PipeTrace.step, h.fifo, hwaiting, append_assoc]
  | closeRead => exact ⟨⟨h.pipe.room, h.pipe.next⟩, h.fifo⟩
  | closeWrite => exact ⟨⟨h.pipe.room, h.pipe.next⟩, h.fifo⟩

theorem calls_sound (h : TraceSound t) (ops : List PipeOp) : TraceSound (t.run ops) := by
  induction ops generalizing t with
  | nil => exact h
  | cons op ops ih => exact ih (call_sound h op)

theorem trace_sound (ops : List PipeOp) : TraceSound (pipeTrace ops) :=
  calls_sound ⟨fresh_sound, rfl⟩ ops

theorem held_length {n : Nat} [NeZero n] (q : Fin n → UInt8) (p : Fin n) (count : Nat) : (held q p count).length = count := by
  simp [held]

theorem read_polled {len : Nat} (hlen : 0 < len) :
    (∃ c bytes, (p.read len).1 = some (c :: bytes)) ↔ p.pollEvents false &&& pipePollIn ≠ 0 := by
  unfold PipeChannel.read PipeChannel.pollEvents
  cases hread : p.readOpen with
  | false => cases p.writeOpen <;> simp
  | true =>
    by_cases hempty : p.count = 0
    · cases hw : p.writeOpen <;> simp [hempty, pipePollIn, pipePollHup]
    · have hpos : 0 < p.count := Nat.pos_of_ne_zero hempty
      have havail : 0 < (if p.count > len then len else p.count) := by split <;> assumption
      obtain ⟨k, hk⟩ := Nat.exists_eq_succ_of_ne_zero (Nat.ne_of_gt havail)
      simp only [hk, hempty, range_succ_eq_map, hpos]
      cases hw : p.writeOpen <;> simp [pipePollIn, pipePollHup]

theorem write_polled (h : PipeSound p) (c : UInt8) : (p.write [c]).1 = some 1 ↔ p.pollEvents true &&& pipePollOut ≠ 0 := by
  have hroom := h.room
  unfold PipeChannel.write PipeChannel.pollEvents
  cases hwrite : p.writeOpen with
  | false => cases p.readOpen <;> simp
  | true =>
    cases hread : p.readOpen with
    | false => simp [pipePollErr, pipePollOut]
    | true =>
      by_cases hfull : p.count < pipeBufSize
      · have hspace : ¬ pipeBufSize - p.count = 0 := by omega
        simp [hfull, hspace, pipePollOut]
      · have hspace : pipeBufSize - p.count = 0 := by omega
        simp [hfull, hspace]

theorem eof_drained {len : Nat} (hlen : 0 < len) (heof : (p.read len).1 = some []) : waiting p = [] ∧ p.writeOpen = false := by
  unfold PipeChannel.read at heof
  split at heof
  · cases heof
  split at heof
  next hempty =>
    refine ⟨by simp [waiting, held, hempty], ?_⟩
    dsimp only at heof
    split at heof
    next hw => simpa using hw
    next => cases heof
  next hsome =>
    have hnil := congrArg List.length (Option.some.inj heof)
    simp only [length_map, length_range, length_nil] at hnil
    split at hnil <;> omega

/-! ## The loop of `sys_write` -/

section
variable {others : Nat → List PipeOp} {src : List UInt8} {k written : Nat}

/-- The other tasks close neither end. -/
def KeepsOpen (others : Nat → List PipeOp) : Prop :=
  ∀ k, PipeOp.closeRead ∉ others k ∧ PipeOp.closeWrite ∉ others k

def Draining (others : Nat → List PipeOp) : Prop :=
  ∀ k, ∃ j ≥ k, (∃ len > 0, PipeOp.read len ∈ others j) ∧ ∀ op ∈ others j, ∃ len, op = .read len

structure PipeUp (p : PipeChannel) : Prop where
  sound : PipeSound p
  readOpen : p.readOpen = true
  writeOpen : p.writeOpen = true

theorem read_open (len : Nat) : (p.read len).2.readOpen = p.readOpen ∧ (p.read len).2.writeOpen = p.writeOpen := by
  unfold PipeChannel.read
  split
  · exact ⟨rfl, rfl⟩
  split <;> exact ⟨rfl, rfl⟩

theorem write_open (src : List UInt8) : (p.write src).2.readOpen = p.readOpen ∧ (p.write src).2.writeOpen = p.writeOpen := by
  unfold PipeChannel.write
  split
  · exact ⟨rfl, rfl⟩
  split
  · exact ⟨rfl, rfl⟩
  dsimp only
  split <;> exact ⟨rfl, rfl⟩

theorem PipeUp.write (h : PipeUp p) (src : List UInt8) : PipeUp (p.write src).2 :=
  ⟨(write_sound h.sound src).1, (write_open src).1.trans h.readOpen, (write_open src).2.trans h.writeOpen⟩

theorem calls_up {ops : List PipeOp} (h : PipeUp t.pipe) (hclose : PipeOp.closeRead ∉ ops ∧ PipeOp.closeWrite ∉ ops) :
    PipeUp (t.run ops).pipe := by
  induction ops generalizing t with
  | nil => exact h
  | cons op ops ih =>
    obtain ⟨hread, hwrite⟩ := hclose
    rw [mem_cons, not_or] at hread hwrite
    refine ih ?_ ⟨hread.2, hwrite.2⟩
    cases op with
    | read len =>
      exact ⟨(read_sound h.sound len).1, (read_open len).1.trans h.readOpen, (read_open len).2.trans h.writeOpen⟩
    | write src => exact h.write src
    | closeRead => exact absurd rfl hread.1
    | closeWrite => exact absurd rfl hwrite.1

theorem PipeUp.turn (h : PipeUp p) (ho : KeepsOpen others) (k : Nat) : PipeUp (p.turn (others k)) :=
  @calls_up ⟨p, [], []⟩ (others k) h (ho k)

theorem pipeRead_count (h : PipeUp p) (len : Nat) : (p.read len).2.count = p.count - len := by
  unfold PipeChannel.read
  rw [h.readOpen]
  simp only [Bool.not_true, Bool.false_eq_true, if_false]
  split
  · dsimp only
    omega
  · dsimp only
    split <;> omega

theorem reads_drain {ops : List PipeOp} (h : PipeUp t.pipe) (hops : ∀ op ∈ ops, ∃ len, op = .read len) :
    (t.run ops).pipe.count ≤ t.pipe.count ∧ ((∃ len > 0, PipeOp.read len ∈ ops) → (t.run ops).pipe.count < pipeBufSize) := by
  induction ops generalizing t with
  | nil => exact ⟨Nat.le_refl _, fun ⟨_, _, hno⟩ => nomatch hno⟩
  | cons op ops ih =>
    obtain ⟨len, rfl⟩ := hops op mem_cons_self
    have hcount : (t.step (.read len)).pipe.count = t.pipe.count - len := pipeRead_count h len
    have hup : PipeUp (t.step (.read len)).pipe :=
      @calls_up t [.read len] h ⟨by simp, by simp⟩
    obtain ⟨hle, hlt⟩ := ih hup fun op hop => hops op (mem_cons_of_mem _ hop)
    rw [hcount] at hle
    have hroom := h.sound.room
    have hpos : 0 < pipeBufSize := by decide
    refine ⟨Nat.le_trans hle (Nat.sub_le _ _), ?_⟩
    rintro ⟨l, hl, hmem⟩
    have hrun : (t.run (.read len :: ops)).pipe.count = ((t.step (.read len)).run ops).pipe.count := rfl
    rw [hrun]
    rcases List.mem_cons.mp hmem with heq | hmem
    · cases heq
      omega
    · exact hlt ⟨l, hl, hmem⟩

theorem write_taken (h : PipeUp p) (src : List UInt8) : ((p.write src).1.getD 0) =
    min (pipeBufSize - p.count) (src.length % 2 ^ 32) := by
  unfold PipeChannel.write
  rw [h.readOpen, h.writeOpen]
  simp only [Bool.not_true, Bool.false_eq_true, if_false]
  split
  next hfull => simp [hfull]
  next => split <;> simp only [Option.getD_some] <;> omega

theorem loop_step (h : PipeUp p) (hsrc : src ≠ []) (n : Nat) : sysWriteLoop others (n + 1) k written src p =
      if 0 < min (pipeBufSize - p.count) (src.length % 2 ^ 32) then
        sysWriteLoop others n k (written + min (pipeBufSize - p.count) (src.length % 2 ^ 32))
          (src.drop (min (pipeBufSize - p.count) (src.length % 2 ^ 32))) (p.write src).2
      else sysWriteLoop others n (k + 1) written src ((p.write src).2.turn (others k)) := by
  rw [sysWriteLoop, if_neg hsrc]
  dsimp only
  rw [write_taken h src, (h.write src).readOpen]
  simp

/-- A length that 32 bits do not hold is never written to its end. -/
theorem long_write_stuck (ho : KeepsOpen others) (h : PipeUp p) (hlong : 2 ^ 32 ≤ src.length) (n : Nat) :
    sysWriteLoop others n k written src p = none := by
  induction n generalizing k written src p with
  | zero => rfl
  | succ n ih =>
    have hsrc : src ≠ [] := by
      rintro rfl
      simp at hlong
    rw [loop_step h hsrc]
    split
    · refine ih (h.write src) ?_
      rw [length_drop]
      omega
    · exact ih ((h.write src).turn ho k) hlong

theorem room_progress (h : PipeUp p) (hsrc : src ≠ []) (hshort : src.length < 2 ^ 32) (hroom : p.count < pipeBufSize) :
    ∃ taken p', 0 < taken ∧ taken ≤ src.length ∧ PipeUp p' ∧ ∀ n, sysWriteLoop others (n + 1) k written src p =
        sysWriteLoop others n k (written + taken) (src.drop taken) p' := by
  have hpos := List.length_pos_iff.mpr hsrc
  have htaken : 0 < min (pipeBufSize - p.count) (src.length % 2 ^ 32) := by
    rw [Nat.mod_eq_of_lt hshort]
    omega
  refine ⟨_, _, htaken, ?_, h.write src, fun n => ?_⟩
  · have hmod := Nat.mod_le src.length (2 ^ 32)
    omega
  · rw [loop_step h hsrc, if_pos htaken]

theorem drained_progress (ho : KeepsOpen others) {j : Nat} (hdrain : (∃ len > 0, PipeOp.read len ∈ others j) ∧
    ∀ op ∈ others j, ∃ len, op = .read len) (h : PipeUp p) (hsrc : src ≠ []) (hshort : src.length < 2 ^ 32) (hk : k ≤ j) :
    ∃ taken k' steps p', 0 < taken ∧ taken ≤ src.length ∧ PipeUp p' ∧ ∀ n, sysWriteLoop others (n + steps) k written src p =
        sysWriteLoop others n k' (written + taken) (src.drop taken) p' := by
  obtain ⟨d, rfl⟩ := Nat.exists_eq_add_of_le hk
  induction d generalizing k p with
  | zero =>
    by_cases hroom : p.count < pipeBufSize
    · obtain ⟨taken, p', hpos, hle, hup, hloop⟩ := @room_progress p others src k written h hsrc hshort hroom
      exact ⟨taken, k, 1, p', hpos, hle, hup, hloop⟩
    · -- the turn that drains
      have hnone : ¬ 0 < min (pipeBufSize - p.count) (src.length % 2 ^ 32) := by omega
      have hup := (h.write src).turn ho k
      have hcount := (@reads_drain ⟨(p.write src).2, [], []⟩ (others (k + 0)) (h.write src) hdrain.2).2 hdrain.1
      obtain ⟨taken, p', hpos, hle, hup', hloop⟩ :=
        @room_progress _ others src (k + 1) written hup hsrc hshort hcount
      refine ⟨taken, k + 1, 2, p', hpos, hle, hup', fun n => ?_⟩
      rw [← hloop n, loop_step h hsrc, if_neg hnone]
  | succ d ih =>
    by_cases hroom : p.count < pipeBufSize
    · obtain ⟨taken, p', hpos, hle, hup, hloop⟩ := @room_progress p others src k written h hsrc hshort hroom
      exact ⟨taken, k, 1, p', hpos, hle, hup, hloop⟩
    · have hnone : ¬ 0 < min (pipeBufSize - p.count) (src.length % 2 ^ 32) := by omega
      have heq : k + (d + 1) = k + 1 + d := by omega
      rw [heq] at hdrain
      obtain ⟨taken, k', steps, p', hpos, hle, hup, hloop⟩ :=
        @ih _ (k + 1) ((h.write src).turn ho k) hdrain (Nat.le_add_right _ _)
      refine ⟨taken, k', steps + 1, p', hpos, hle, hup, fun n => ?_⟩
      rw [← hloop n, ← Nat.add_assoc, loop_step h hsrc, if_neg hnone]

theorem loop_returns (ho : KeepsOpen others) (hd : Draining others) (h : PipeUp p) (hshort : src.length < 2 ^ 32) :
    ∃ n p', sysWriteLoop others n k written src p = some (↑(written + src.length), p') := by
  induction hlen : src.length using Nat.strong_induction_on generalizing k written src p with
  | _ len ih =>
    subst hlen
    by_cases hsrc : src = []
    · subst hsrc
      exact ⟨1, p, by simp [sysWriteLoop]⟩
    obtain ⟨j, hj, hdrain⟩ := hd k
    obtain ⟨taken, k', steps, p', hpos, hle, hup, hloop⟩ :=
      @drained_progress p others src k written ho j hdrain h hsrc hshort hj
    have hrest : (src.drop taken).length = src.length - taken := length_drop
    obtain ⟨n, p'', hreturns⟩ :=
      @ih (src.length - taken) (by omega) p' (src.drop taken) k' (written + taken) hup (by omega) hrest
    refine ⟨n + steps, p'', ?_⟩
    rw [hloop n, hreturns]
    congr 3
    omega

end

/-- A pipe is a lossless channel over every run: what is returned is a prefix of what was
written, at most a buffer behind it; the polls tell exactly what a read and a write would
do; the end of file comes behind the last byte. A write of the system call comes to its end
exactly when 32 bits hold its length, since `pipe_write` cuts the length that is left. -/
theorem pipe_channel (ops : List PipeOp) :
    (pipeTrace ops).returned <+: (pipeTrace ops).written ∧
    (pipeTrace ops).written.length ≤ (pipeTrace ops).returned.length + pipeBufSize ∧
    (∀ len > 0, (∃ c bytes, ((pipeTrace ops).pipe.read len).1 = some (c :: bytes)) ↔
      (pipeTrace ops).pipe.pollEvents false &&& pipePollIn ≠ 0) ∧
    (∀ c, ((pipeTrace ops).pipe.write [c]).1 = some 1 ↔
      (pipeTrace ops).pipe.pollEvents true &&& pipePollOut ≠ 0) ∧
    (∀ len > 0, ((pipeTrace ops).pipe.read len).1 = some [] → (pipeTrace ops).returned = (pipeTrace ops).written) ∧
    ((pipeTrace ops).pipe.readOpen = true → (pipeTrace ops).pipe.writeOpen = true →
      ∀ others, KeepsOpen others → Draining others → ∀ src : List UInt8,
        (∃ n p, sysWritePipe others n src (pipeTrace ops).pipe = some (↑src.length, p)) ↔ src.length < 2 ^ 32) := by
  have h := trace_sound ops
  refine ⟨⟨_, h.fifo.symm⟩, ?_, fun len hlen => read_polled hlen, write_polled h.pipe, ?_, ?_⟩
  · rw [h.fifo, length_append, waiting, held_length]
    have hroom := h.pipe.room
    omega
  · intro len hlen heof
    rw [h.fifo, (eof_drained hlen heof).1, append_nil]
  · intro hread hwrite others ho hd src
    have hup : PipeUp (pipeTrace ops).pipe := ⟨h.pipe, hread, hwrite⟩
    by_cases hsrc : src = []
    · subst hsrc
      exact ⟨fun _ => by simp, fun _ => ⟨0, _, rfl⟩⟩
    constructor
    · rintro ⟨n, p, hreturns⟩
      refine Nat.lt_of_not_le fun hlong => ?_
      rw [sysWritePipe, if_neg hsrc, long_write_stuck ho hup hlong n] at hreturns
      exact nomatch hreturns
    · intro hshort
      obtain ⟨n, p, hreturns⟩ := @loop_returns _ others src 0 0 ho hd hup hshort
      refine ⟨n, p, ?_⟩
      rw [sysWritePipe, if_neg hsrc, hreturns, Nat.zero_add]

/-- A reader that takes a byte in every turn. -/
theorem reader_drains : KeepsOpen (fun _ => [.read 1]) ∧ Draining (fun _ => [.read 1]) :=
  ⟨fun _ => ⟨by simp, by simp⟩, fun k => ⟨k, Nat.le_refl k, ⟨1, by decide, by simp⟩, by simp⟩⟩

theorem pipe_channel_thousand : ∃ n p, sysWritePipe (fun _ => [.read 1]) n (List.replicate 1000 0)
    (pipeTrace [.write [7]]).pipe = some (1000, p) := by
  have hlen : (List.replicate 1000 (0 : UInt8)).length = 1000 := length_replicate
  have hends := ((pipe_channel [.write [7]]).2.2.2.2.2 (by decide) (by decide) _ reader_drains.1 reader_drains.2
    (List.replicate 1000 0)).mpr (by omega)
  rwa [hlen] at hends

/-- It does not let a write of 4 GiB come to its end. -/
theorem long_write_never_returns : KeepsOpen (fun _ => [.read 1]) ∧ Draining (fun _ => [.read 1]) ∧
    ∀ n p, sysWritePipe (fun _ => [.read 1]) n (List.replicate (2 ^ 32) 0) pipeFresh ≠ some (2 ^ 32, p) := by
  refine ⟨reader_drains.1, reader_drains.2, fun n p hreturns => ?_⟩
  have hlen : (List.replicate (2 ^ 32) (0 : UInt8)).length = 2 ^ 32 := length_replicate
  have hsrc : List.replicate (2 ^ 32) (0 : UInt8) ≠ [] := by
    intro hnil
    rw [hnil] at hlen
    exact absurd hlen (by decide)
  rw [sysWritePipe, if_neg hsrc, long_write_stuck reader_drains.1 ⟨fresh_sound, rfl, rfl⟩ (Nat.le_of_eq hlen.symm) n] at hreturns
  exact nomatch hreturns

end CapyOS.Proofs

import LibFs.Foundation.Run
import LibFs.Foundation.Slots
import LibFs.Model.Api

/-! The block layer as an array of blocks. Underneath, all blocks share one file and
one cursor; whole transfers never meet in one block's bytes, so a run of reads and
writes replays the writes on an array. -/
namespace LibFs

open LibFs.Foundation

inductive BlockCall where
  | read (block : Nat) (buffer : Bytes)
  | write (block : Nat) (source : Bytes)

namespace BlockCall

def block : BlockCall → Nat
  | read block _ => block
  | write block _ => block

def memory : BlockCall → Bytes
  | read _ buffer => buffer
  | write _ source => source

end BlockCall

structure BlockOutcome where
  ret : Int
  memory : Bytes

def blockStep : BlockCall → Device → Except Fault (BlockOutcome × Device)
  | .read block buffer, d =>
      let out := blockRead .whole block buffer 0 d
      .ok (⟨out.ret, out.buffer⟩, out.device)
  | .write block source, d =>
      let out := blockWrite .whole block source d
      .ok (⟨out.1, source⟩, out.2)

abbrev BlockEvent := Event Device BlockCall BlockOutcome
abbrev BlockRun (start : Device) := Run blockStep start

def blockWrites (past : List BlockEvent) : List (Nat × Bytes) :=
  past.filterMap fun e =>
    match e.call with
    | .read _ _ => none
    | .write block source => some (block, source)

def latestBlock (start : Device) (path : List UInt8) (past : List BlockEvent) (b : Nat) : Bytes :=
  (latest (blockWrites past) b).getD (start.host.block path b)

/-- What an array of `start.disk.bcount` blocks does on one call. -/
structure ArrayCall (start : Device) (path : List UInt8) (past : List BlockEvent)
    (e : BlockEvent) : Prop where
  refused : start.disk.bcount ≤ e.call.block →
    e.ret = ⟨-1, e.call.memory⟩ ∧ e.after = e.before
  accepted : e.call.block < start.disk.bcount → e.ret.ret = 0
  reads : ∀ b buffer, e.call = .read b buffer → b < start.disk.bcount →
    e.ret.memory = overlay buffer 0 blockSize (latestBlock start path past b) ∧
      e.after.host.image = e.before.host.image
  writes : ∀ b source, e.call = .write b source → b < start.disk.bcount →
    (∀ p < blockSize, e.after.host.block path b p = source p) ∧
      (∀ b', b' ≠ b → ∀ p < blockSize,
        e.after.host.block path b' p = e.before.host.block path b' p) ∧
      ∀ other, other ≠ path → e.after.host.image other = e.before.host.image other
  count : e.after.disk = start.disk ∧
    (e.after.host.image path).size = (start.host.image path).size
  offset : e.call.block < start.disk.bcount →
    e.call.block * blockSize % 2 ^ 64 = e.call.block * blockSize

structure Replayed (start : Device) (path : List UInt8) (writes : List (Nat × Bytes))
    (d : Device) : Prop where
  serves : d.Serves path
  disk : d.disk = start.disk
  size : (d.host.image path).size = (start.host.image path).size
  blocks : ∀ b < start.disk.bcount, ∀ p < blockSize,
    d.host.block path b p = replay (start.host.block path) writes b p

section Calls

variable {start d : Device} {path : List UInt8} {writes : List (Nat × Bytes)}
  {past : List BlockEvent} {b : Nat}

theorem Device.Serves.offset_mod (h : d.Serves path) (hb : b < d.disk.bcount) :
    b * blockSize % 2 ^ 64 = b * blockSize := by
  have hsize := (d.host.image path).sizeFits
  have hcount := h.2
  have hlt := Nat.mul_lt_mul_of_pos_right hb (by decide : 0 < blockSize)
  exact Nat.mod_eq_of_lt (by omega)

theorem replayed_start (h : start.Serves path) : Replayed start path [] start :=
  ⟨h, rfl, rfl, fun _ _ _ _ => rfl⟩

theorem Replayed.counted (h : Replayed start path writes d) (hb : b < start.disk.bcount) :
    b < d.disk.bcount := h.disk ▸ hb

theorem Replayed.uncounted (h : Replayed start path writes d) (hb : start.disk.bcount ≤ b) :
    d.disk.bcount ≤ b := h.disk ▸ hb

theorem Replayed.latest (h : Replayed start path (blockWrites past) d)
    (hb : b < start.disk.bcount) {p : Nat} (hp : p < blockSize) :
    d.host.block path b p = latestBlock start path past b p := by
  rw [h.blocks b hb p hp, replay_eq_latest]
  rfl

theorem Replayed.read (h : Replayed start path writes d) (t : Transfer) (b : Nat)
    (buffer : Bytes) (offset : Nat) :
    Replayed start path writes (blockRead t b buffer offset d).device where
  serves := blockRead_serves _ _ _ h.serves
  disk := (blockRead_disk _ _ _ _ _).trans h.disk
  size := by
    rw [blockRead_image]
    exact h.size
  blocks := by
    unfold Host.block
    rw [blockRead_image]
    exact h.blocks

theorem Replayed.write (h : Replayed start path writes d) (b : Nat) (source : Bytes) :
    Replayed start path ((b, source) :: writes) (blockWrite .whole b source d).2 := by
  rcases Nat.lt_or_ge b start.disk.bcount with hb | hb
  · obtain ⟨_, hdisk, hserves, _⟩ := blockWrite_whole h.serves (h.counted hb) source
    refine ⟨hserves, hdisk.trans h.disk, (blockWrite_size _ _ _ _ _).trans h.size, ?_⟩
    intro b' hb' p hp
    rw [blockWrite_block h.serves (h.counted hb) source hp, h.blocks b' hb' p hp]
    by_cases heq : b' = b
    · subst heq
      simp [replay]
    · simp [replay, heq]
  · rw [blockWrite_refused (h.uncounted hb)]
    refine ⟨h.serves, h.disk, h.size, fun b' hb' p hp => ?_⟩
    have hne : b' ≠ b := (hb'.trans_le hb).ne
    rw [h.blocks b' hb' p hp, replay, Function.update_of_ne hne]

end Calls

section Steps

variable {start : Device} {path : List UInt8} {past : List BlockEvent} {e : BlockEvent}

theorem arrayCall_read {b : Nat} {buffer : Bytes} (hcall : e.call = .read b buffer)
    (hinv : Replayed start path (blockWrites past) e.before)
    (hstep : blockStep e.call e.before = .ok (e.ret, e.after)) :
    Replayed start path (blockWrites (e :: past)) e.after ∧ ArrayCall start path past e := by
  obtain ⟨before, call, ret, after⟩ := e
  dsimp only at hcall
  subst hcall
  simp only [blockStep, Except.ok.injEq, Prod.mk.injEq] at hstep hinv
  obtain ⟨rfl, rfl⟩ := hstep
  have hnext := hinv.read .whole b buffer 0
  refine ⟨hnext, ?_, ?_, ?_, by simp, ⟨hnext.disk, hnext.size⟩, ?_⟩
  · intro (hb : start.disk.bcount ≤ b)
    dsimp only [BlockCall.memory]
    rw [blockRead_refused _ _ _ (hinv.uncounted hb)]
    exact ⟨rfl, rfl⟩
  · intro hb
    exact (blockRead_whole hinv.serves (hinv.counted hb) buffer 0).1
  · intro _ _ hsame hb
    cases hsame
    refine ⟨?_, blockRead_image _ _ _ _ _⟩
    dsimp only
    rw [(blockRead_whole hinv.serves (hinv.counted hb) buffer 0).2]
    exact overlay_congr fun p hp => hinv.latest hb hp
  · intro hb
    exact hinv.serves.offset_mod (hinv.counted hb)

theorem arrayCall_write {b : Nat} {source : Bytes} (hcall : e.call = .write b source)
    (hinv : Replayed start path (blockWrites past) e.before)
    (hstep : blockStep e.call e.before = .ok (e.ret, e.after)) :
    Replayed start path (blockWrites (e :: past)) e.after ∧ ArrayCall start path past e := by
  obtain ⟨before, call, ret, after⟩ := e
  dsimp only at hcall
  subst hcall
  simp only [blockStep, Except.ok.injEq, Prod.mk.injEq] at hstep hinv
  obtain ⟨rfl, rfl⟩ := hstep
  have hnext := hinv.write b source
  refine ⟨hnext, ?_, ?_, by simp, ?_, ⟨hnext.disk, hnext.size⟩, ?_⟩
  · intro (hb : start.disk.bcount ≤ b)
    dsimp only [BlockCall.memory]
    rw [blockWrite_refused (hinv.uncounted hb)]
    exact ⟨rfl, rfl⟩
  · intro hb
    exact (blockWrite_whole hinv.serves (hinv.counted hb) source).1
  · intro _ _ hsame hb
    cases hsame
    have hcounted := hinv.counted hb
    refine ⟨fun p hp => ?_, fun b' hne p hp => ?_, fun other hne => ?_⟩
    · rw [blockWrite_block hinv.serves hcounted source hp, if_pos rfl]
    · rw [blockWrite_block hinv.serves hcounted source hp, if_neg hne]
    · dsimp only
      rw [(blockWrite_whole hinv.serves hcounted source).2.2.2, Function.update_of_ne hne]
  · intro hb
    exact hinv.serves.offset_mod (hinv.counted hb)

end Steps

/-- Every run of block reads and writes on an open disk, with a host that moves whole
blocks, is a run on an array of blocks. -/
theorem block_array {start d : Device} {path : List UInt8} {past : List BlockEvent}
    (hserves : start.Serves path) (hrun : BlockRun start past d) :
    Throughout (ArrayCall start path) past := by
  refine (hrun.always_good (I := fun past d => Replayed start path (blockWrites past) d)
    (replayed_start hserves) fun past e hinv hstep => ?_).2
  cases hcall : e.call with
  | read b buffer => exact arrayCall_read hcall hinv hstep
  | write b source => exact arrayCall_write hcall hinv hstep

/-- A block written and read back on the sample disk. -/
theorem block_array_sample :
    ∃ past d, BlockRun (sampleDisk 4 0 fun _ => 0) past d ∧ past.length = 2 ∧
      Throughout (ArrayCall (sampleDisk 4 0 fun _ => 0) diskD.bytes) past := by
  have hserves : (sampleDisk 4 0 fun _ => 0).Serves diskD.bytes :=
    ⟨⟨3, 0, rfl, rfl⟩, le_refl _⟩
  have hwrite : BlockRun (sampleDisk 4 0 fun _ => 0) [⟨_, .write 1 fun _ => 7, _, _⟩] _ :=
    .snoc .nil rfl
  have hread : BlockRun _ (⟨_, .read 1 fun _ => 0, _, _⟩ :: _) _ := hwrite.snoc rfl
  exact ⟨_, _, hread, rfl, block_array hserves hread⟩

end LibFs

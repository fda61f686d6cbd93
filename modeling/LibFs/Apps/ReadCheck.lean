import LibFs.Model.Script

/-! The check of the `READ` command. It compares the expected data and one byte behind them
with the zero-filled buffer and never looks at how many bytes were read, so zero bytes at the
end of either side go unnoticed. -/
namespace LibFs

open LibFs.Foundation

/-- The report is sound: correct exactly when what was read is what was expected, and no
byte behind the buffer has been looked at. -/
def ReadSound (len : Int) (expected : Expected) (read : List UInt8) (beyond : Bytes) : Prop :=
  ((∃ count, scriptRead len expected (some read) beyond = .compared count true) ↔
      read.length = expected.contents.length ∧ read = expected.contents) ∧
    ∀ count correct, scriptRead len expected (some read) beyond = .compared count correct →
      (count : Int) ≤ len + 1

def Expected.dataSize (expected : Expected) : Int := toInt expected.contents.length

def Expected.loaded (expected : Expected) : List UInt8 :=
  expected.contents.take expected.dataSize.toNat

/-- The canary decides: the data fit the request, neither side goes on with zero bytes where
the other one ends, and the data have not been cut off. -/
structure CanaryDecides (len : Int) (expected : Expected) (read : List UInt8) : Prop where
  fits : expected.dataSize ≤ len
  notShort : ∀ n > 0, expected.loaded ≠ read ++ List.replicate n 0
  notLong : ∀ tail, read ≠ expected.loaded ++ 0 :: tail
  notCut : read = expected.loaded → expected.loaded = expected.contents

/-- Two strings agree up to one byte behind the first, zeros standing behind their ends, when
one of them is the other with zeros appended; behind the first string one zero is enough. -/
theorem agree_iff (data read : List UInt8) :
    (∀ i < data.length + 1, data.getD i 0 = read.getD i 0) ↔
      (∃ n, data = read ++ List.replicate n 0) ∨ ∃ tail, read = data ++ 0 :: tail := by
  induction data generalizing read with
  | nil =>
      rw [List.length_nil, Nat.forall_lt_succ_left]
      cases read with
      | nil => exact iff_of_true (by simp) (Or.inl ⟨0, rfl⟩)
      | cons byte read =>
          simp only [List.getD_nil, List.getD_cons_zero, Nat.not_lt_zero, false_implies,
            implies_true, and_true, List.nil_append, List.cons.injEq]
          constructor
          · rintro rfl
            exact Or.inr ⟨read, rfl, rfl⟩
          · rintro (⟨n, hnil⟩ | ⟨_, rfl, _⟩)
            · simp at hnil
            · rfl
  | cons head data ih =>
      rw [List.length_cons, Nat.forall_lt_succ_left]
      cases read with
      | nil =>
          have hrest := ih []
          simp only [List.getD_nil, List.getD_cons_zero, List.getD_cons_succ, List.nil_append,
            List.nil_eq, List.append_eq_nil_iff, reduceCtorEq, and_false, exists_false,
            or_false] at hrest ⊢
          rw [hrest]
          constructor
          · rintro ⟨rfl, n, rfl⟩
            exact ⟨n + 1, rfl⟩
          · rintro ⟨n, hn⟩
            cases n with
            | zero => simp at hn
            | succ n =>
                rw [List.replicate_succ, List.cons.injEq] at hn
                exact ⟨hn.1, n, hn.2⟩
      | cons byte read =>
          simp only [List.getD_cons_zero, List.getD_cons_succ, List.cons_append, List.cons.injEq]
          rw [ih read]
          constructor
          · rintro ⟨rfl, ⟨n, hn⟩ | ⟨tail, htail⟩⟩
            · exact Or.inl ⟨n, rfl, hn⟩
            · exact Or.inr ⟨tail, rfl, htail⟩
          · rintro (⟨n, rfl, hn⟩ | ⟨tail, rfl, htail⟩)
            · exact ⟨rfl, Or.inl ⟨n, hn⟩⟩
            · exact ⟨rfl, Or.inr ⟨tail, htail⟩⟩

section Loading

variable (expected : Expected)

theorem dataSize_lt : expected.dataSize < 2 ^ 31 := (toInt_bounds _).2

theorem loaded_length (h : 0 ≤ expected.dataSize) :
    (expected.loaded.length : Int) = expected.dataSize := by
  have hle : expected.dataSize ≤ expected.contents.length := toInt_le _
  unfold Expected.loaded
  rw [List.length_take]
  omega

theorem loaded_eq (h : expected.contents.length < 2 ^ 31) :
    expected.loaded = expected.contents := by
  unfold Expected.loaded Expected.dataSize
  rw [toInt_eq h, Int.toNat_natCast, List.take_length]

theorem load_eq : expected.load = if expected.dataSize < 0 then none
    else some ⟨fun i => expected.loaded.getD i 0, expected.dataSize⟩ := by
  cases expected with
  | data argument inLine =>
      have hsize : toInt argument.strlen = argument.strlen :=
        toInt_eq (inLine.trans (by decide))
      have hlength : argument.bytes.length = argument.strlen := rfl
      simp only [Expected.load, Expected.dataSize, Expected.loaded, Expected.contents, hlength,
        hsize, Int.toNat_natCast]
      rw [if_neg (by omega), ← hlength, List.take_length]
  | file contents sizeFits =>
      have hbounds := toInt_bounds contents.length
      have hle := toInt_le contents.length
      have hdata : (Expected.file contents sizeFits).dataSize = toInt contents.length := rfl
      rw [hdata]
      unfold Expected.load
      simp only
      by_cases hneg : toInt contents.length < 0
      · have hsize : contents.length < toSizeT (toInt contents.length) := by
          unfold toSizeT
          omega
        rw [if_pos hneg, if_neg (by omega)]
      · have hsize : toSizeT (toInt contents.length) = (toInt contents.length).toNat := by
          unfold toSizeT
          omega
        have hmin : min (toInt contents.length).toNat contents.length =
            (toInt contents.length).toNat := by omega
        rw [if_neg hneg, hsize, hmin, if_pos rfl]
        rfl

end Loading

section Report

variable {len : Int} {expected : Expected} {read : List UInt8}

theorem readBuf_inside (beyond : Bytes) {i : Nat} (hi : (i : Int) ≤ len) :
    readBuf len read beyond i = read.getD i 0 := by
  unfold readBuf
  rw [if_pos (by omega)]

theorem scriptRead_eq (hlen : 0 ≤ len) (beyond : Bytes) :
    scriptRead len expected (some read) beyond = if expected.dataSize < 0 then .aborted
      else .compared (expected.loaded.length + 1) (decide (∀ i < expected.loaded.length + 1,
        expected.loaded.getD i 0 = readBuf len read beyond i)) := by
  unfold scriptRead
  rw [load_eq]
  by_cases hneg : expected.dataSize < 0
  · rw [if_pos hneg, if_pos hneg]
  · have hlength := loaded_length expected (by omega)
    have hlt := dataSize_lt expected
    have hcount : toSizeT (expected.dataSize + 1) = expected.loaded.length + 1 := by
      rw [← hlength]
      unfold toSizeT
      omega
    rw [if_neg hneg, if_neg hneg]
    simp only [if_neg (by omega : ¬ len < 0), hcount]

theorem agree_readBuf_iff (hsize : 0 ≤ expected.dataSize) (hfits : expected.dataSize ≤ len)
    (beyond : Bytes) :
    (∀ i < expected.loaded.length + 1,
        expected.loaded.getD i 0 = readBuf len read beyond i) ↔
      (∃ n, expected.loaded = read ++ List.replicate n 0) ∨
        ∃ tail, read = expected.loaded ++ 0 :: tail := by
  have hlength := loaded_length expected hsize
  rw [← agree_iff]
  refine forall₂_congr fun i hi => ?_
  rw [readBuf_inside beyond (by omega)]

theorem readSound_compared_iff (hlen : 0 ≤ len) (hsize : 0 ≤ expected.dataSize)
    (beyond : Bytes) :
    ReadSound len expected read beyond ↔ expected.dataSize ≤ len ∧
      (((∃ n, expected.loaded = read ++ List.replicate n 0) ∨
          ∃ tail, read = expected.loaded ++ 0 :: tail) ↔ read = expected.contents) := by
  have hlength := loaded_length expected hsize
  have hcontents : read.length = expected.contents.length ∧ read = expected.contents ↔
      read = expected.contents := and_iff_right_of_imp (congrArg List.length)
  unfold ReadSound
  rw [scriptRead_eq hlen, if_neg (by omega), hcontents]
  simp only [ReadReport.compared.injEq, exists_eq_left', decide_eq_true_eq]
  constructor
  · rintro ⟨hreport, hbound⟩
    have hcount := hbound _ _ ⟨rfl, rfl⟩
    have hfits : expected.dataSize ≤ len := by omega
    rw [agree_readBuf_iff hsize hfits] at hreport
    exact ⟨hfits, hreport⟩
  · rintro ⟨hfits, hreport⟩
    refine ⟨(agree_readBuf_iff hsize hfits beyond).trans hreport, ?_⟩
    rintro count correct ⟨rfl, _⟩
    omega

theorem canary_iff (hread : read.length < 2 ^ 31) :
    (((∃ n, expected.loaded = read ++ List.replicate n 0) ∨
        ∃ tail, read = expected.loaded ++ 0 :: tail) ↔ read = expected.contents) ↔
      (∀ n > 0, expected.loaded ≠ read ++ List.replicate n 0) ∧
        (∀ tail, read ≠ expected.loaded ++ 0 :: tail) ∧
        (read = expected.loaded → expected.loaded = expected.contents) := by
  -- equal strings fit an `int`, so they are loaded whole
  have hequal (heq : read = expected.contents) : expected.loaded = read := by
    rw [heq]
    exact loaded_eq expected (heq ▸ hread)
  constructor
  · intro hiff
    refine ⟨fun n hn hshort => ?_, fun tail hlong => ?_, fun hsame => ?_⟩
    · have hloaded := hequal (hiff.mp (Or.inl ⟨n, hshort⟩))
      rw [hloaded, List.self_eq_append_right, List.replicate_eq_nil_iff] at hshort
      omega
    · have hloaded := hequal (hiff.mp (Or.inr ⟨tail, hlong⟩))
      rw [hloaded, List.self_eq_append_right] at hlong
      contradiction
    · exact hsame.symm.trans (hiff.mp (Or.inl ⟨0, by simpa using hsame.symm⟩))
  · rintro ⟨hshort, hlong, hcut⟩
    constructor
    · rintro (⟨n, hn⟩ | ⟨tail, htail⟩)
      · rcases Nat.eq_zero_or_pos n with rfl | hpos
        · have hsame : read = expected.loaded := by simpa using hn.symm
          exact hsame.trans (hcut hsame)
        · exact absurd hn (hshort n hpos)
      · exact absurd htail (hlong tail)
    · intro heq
      exact Or.inl ⟨0, by simpa using hequal heq⟩

/-- The report of a `READ` is sound if and only if the size of the data does not fit an `int`
and comes out negative, or the canary decides. -/
theorem read_sound_iff (hlen : 0 ≤ len) (hint : len < 2 ^ 31)
    (hread : (read.length : Int) ≤ len) (beyond : Bytes) :
    ReadSound len expected read beyond ↔
      expected.dataSize < 0 ∨ CanaryDecides len expected read := by
  rcases Int.lt_or_le expected.dataSize 0 with hneg | hsize
  · refine iff_of_true ?_ (Or.inl hneg)
    unfold ReadSound
    rw [scriptRead_eq hlen, if_pos hneg]
    refine ⟨iff_of_false (by simp) ?_, by simp⟩
    rintro ⟨hlength, _⟩
    have hdata : expected.dataSize = expected.contents.length := toInt_eq (by omega)
    omega
  · rw [readSound_compared_iff hlen hsize, canary_iff (by omega)]
    constructor
    · rintro ⟨hfits, hshort, hlong, hcut⟩
      exact Or.inr ⟨hfits, hshort, hlong, hcut⟩
    · rintro (hneg | ⟨hfits, hshort, hlong, hcut⟩)
      · omega
      · exact ⟨hfits, hshort, hlong, hcut⟩

end Report

def expectedX : Expected := .data ⟨[120], by decide⟩ (by decide)

theorem read_sound_iff_x : ReadSound 5 expectedX [120] (fun _ => 0) ↔
    expectedX.dataSize < 0 ∨ CanaryDecides 5 expectedX [120] :=
  read_sound_iff (by decide) (by decide) (by decide) fun _ => 0

/-- Two bytes are read, the second one zero, and reported as the one byte expected. -/
theorem read_sound_refuted :
    ¬ ∀ (len : Int) (expected : Expected) (read : List UInt8) (beyond : Bytes), 0 ≤ len →
      len < 2 ^ 31 → (read.length : Int) ≤ len → ReadSound len expected read beyond := by
  intro hsounds
  have hsound := hsounds 2 expectedX [120, 0] (fun _ => 0) (by decide) (by decide) (by decide)
  have hlength := (hsound.1.mp ⟨2, by decide⟩).1
  exact absurd hlength (by decide)

end LibFs

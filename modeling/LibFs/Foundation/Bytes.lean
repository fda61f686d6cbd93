import Mathlib.Tactic.Ring
import Mathlib.Data.Nat.Basic

/-! Raw memory as a function from byte offsets. A region's length is kept by
whoever owns the region; these operations only say which bytes move where. -/
namespace LibFs.Foundation

abbrev Bytes := Nat → UInt8

/-- Replace `length` bytes from `offset` on by the first bytes of `source`. -/
def overlay (base : Bytes) (offset length : Nat) (source : Bytes) : Bytes :=
  fun p => if offset ≤ p ∧ p < offset + length then source (p - offset) else base p

def slice (base : Bytes) (offset : Nat) : Bytes := fun p => base (offset + p)

theorem overlay_inside (base source : Bytes) {offset length p : Nat}
    (hlow : offset ≤ p) (hhigh : p < offset + length) :
    overlay base offset length source p = source (p - offset) :=
  if_pos ⟨hlow, hhigh⟩

theorem overlay_outside (base source : Bytes) {offset length p : Nat}
    (h : p < offset ∨ offset + length ≤ p) :
    overlay base offset length source p = base p :=
  if_neg (by omega)

theorem overlay_congr {base source source' : Bytes} {offset length : Nat}
    (h : ∀ p < length, source p = source' p) :
    overlay base offset length source = overlay base offset length source' := by
  funext p
  unfold overlay
  split
  · exact h _ (by omega)
  · rfl

@[simp] theorem overlay_same (base : Bytes) (offset length : Nat) :
    overlay base offset length (slice base offset) = base := by
  funext p
  unfold overlay slice
  split
  · congr 1
    omega
  · rfl

/-! Little-endian integers. -/

def leNat : Nat → Bytes → Nat
  | 0, _ => 0
  | width + 1, bytes => (bytes 0).toNat + 256 * leNat width (fun p => bytes (p + 1))

def leByte (value : Nat) : Bytes := fun p => UInt8.ofNat (value / 256 ^ p)

theorem leNat_lt (width : Nat) (bytes : Bytes) : leNat width bytes < 256 ^ width := by
  induction width generalizing bytes with
  | zero => simp [leNat]
  | succ width ih =>
      have hhead := (bytes 0).toNat_lt
      have htail := ih fun p => bytes (p + 1)
      rw [leNat, Nat.pow_succ]
      omega

theorem leNat_congr {width : Nat} {left right : Bytes} (h : ∀ p < width, left p = right p) :
    leNat width left = leNat width right := by
  induction width generalizing left right with
  | zero => rfl
  | succ width ih =>
      rw [leNat, leNat, h 0 (by omega), ih fun p hp => h (p + 1) (by omega)]

theorem leNat_leByte (width value : Nat) (h : value < 256 ^ width) :
    leNat width (leByte value) = value := by
  induction width generalizing value with
  | zero => simp at h; simp [leNat, h]
  | succ width ih =>
      have htail : (fun p => leByte value (p + 1)) = leByte (value / 256) := by
        funext p
        unfold leByte
        rw [Nat.pow_succ, Nat.mul_comm, Nat.div_div_eq_div_mul]
      have hquotient : value / 256 < 256 ^ width := by
        rw [Nat.pow_succ] at h
        omega
      rw [leNat, htail, ih _ hquotient]
      have hhead : (leByte value 0).toNat = value % 256 := by simp [leByte]
      omega

theorem leNat_eq_of_bytes {width value : Nat} {bytes : Bytes} (h : value < 256 ^ width)
    (hbytes : ∀ p < width, bytes p = leByte value p) : leNat width bytes = value := by
  rw [leNat_congr hbytes, leNat_leByte width value h]

theorem leByte_leNat {width : Nat} (bytes : Bytes) {p : Nat} (hp : p < width) :
    leByte (leNat width bytes) p = bytes p := by
  induction width generalizing bytes p with
  | zero => omega
  | succ width ih =>
      have hhead := (bytes 0).toNat_lt
      cases p with
      | zero =>
          apply UInt8.toNat_inj.mp
          simp only [leByte, leNat, UInt8.toNat_ofNat', Nat.pow_zero, Nat.div_one]
          omega
      | succ p =>
          rw [← ih (fun p => bytes (p + 1)) (by omega : p < width)]
          unfold leByte
          rw [leNat, Nat.pow_succ, Nat.mul_comm (256 ^ p), ← Nat.div_div_eq_div_mul]
          congr 2
          omega

/-! Blocks of one width copied into a buffer at multiples of a stride. -/

def loadStrided (width stride : Nat) (block : Nat → Bytes) : Nat → Bytes → Bytes
  | 0, buffer => buffer
  | count + 1, buffer =>
      overlay (loadStrided width stride block count buffer) (stride * count) width (block count)

section Strided

variable {width stride count : Nat} {block : Nat → Bytes} {buffer : Bytes}

theorem loadStrided_before {i p : Nat} (hp : p < stride * i) (hi : i ≤ count) :
    loadStrided width stride block count buffer p =
      loadStrided width stride block i buffer p := by
  induction count with
  | zero =>
      have hzero : i = 0 := by omega
      subst hzero
      rfl
  | succ count ih =>
      rcases Nat.lt_or_ge count i with hlt | hge
      · have heq : i = count + 1 := by omega
        subst heq
        rfl
      · rw [loadStrided, overlay_outside]
        · exact ih hge
        · exact Or.inl (hp.trans_le (Nat.mul_le_mul_left stride hge))

theorem loadStrided_last (k : Nat) (hk : k < width) :
    loadStrided width stride block (count + 1) buffer (stride * count + k) = block count k := by
  rw [loadStrided, overlay_inside _ _ (by omega) (by omega)]
  congr 1
  omega

theorem loadStrided_outside {size p : Nat}
    (hfits : ∀ i < count, stride * i + width ≤ size) (hp : size ≤ p) :
    loadStrided width stride block count buffer p = buffer p := by
  induction count with
  | zero => rfl
  | succ count ih =>
      have hlast := hfits count (Nat.lt_succ_self count)
      rw [loadStrided, overlay_outside _ _ (Or.inr (hlast.trans hp))]
      exact ih fun i hi => hfits i (Nat.lt_succ_of_lt hi)

theorem loadStrided_apply (hpos : 0 < stride) (hle : stride ≤ width) (p : Nat) :
    loadStrided width stride block (count + 1) buffer p =
      if p < stride * count + width then
        block (min (p / stride) count) (p - stride * min (p / stride) count)
      else buffer p := by
  split
  · rename_i hin
    rcases Nat.lt_or_ge p (stride * count) with hbefore | hlast
    · have hindex : p / stride < count := Nat.div_lt_of_lt_mul hbefore
      have hmod := Nat.mod_lt p hpos
      have hdiv := Nat.div_add_mod p stride
      have hnext : p < stride * (p / stride + 1) := by
        rw [Nat.mul_succ]
        omega
      have hsplit : p = stride * (p / stride) + (p - stride * (p / stride)) := by omega
      have hread : loadStrided width stride block (p / stride + 1) buffer
          (stride * (p / stride) + (p - stride * (p / stride))) =
          block (p / stride) (p - stride * (p / stride)) := loadStrided_last _ (by omega)
      rw [← hsplit] at hread
      rw [Nat.min_eq_left hindex.le, loadStrided_before hnext (by omega), hread]
    · have hindex : count ≤ p / stride := by
        rw [Nat.le_div_iff_mul_le hpos, Nat.mul_comm]
        exact hlast
      have hsplit : p = stride * count + (p - stride * count) := by omega
      have hread : loadStrided width stride block (count + 1) buffer
          (stride * count + (p - stride * count)) = block count (p - stride * count) :=
        loadStrided_last _ (by omega)
      rw [← hsplit] at hread
      rw [Nat.min_eq_right hindex, hread]
  · rename_i hout
    refine loadStrided_outside (fun i hi => ?_) (Nat.not_lt.mp hout)
    have hstride := Nat.mul_le_mul_left stride (Nat.le_of_lt_succ hi)
    omega

/-- Reading the blocks back at the stride they were loaded with gives them all
unchanged exactly when every block agrees with the next one wherever the next
one is laid over it. -/
theorem loadStrided_windows_iff (width stride count : Nat) (block : Nat → Bytes) (buffer : Bytes) :
    (∀ i < count, ∀ k < width,
        loadStrided width stride block count buffer (stride * i + k) = block i k) ↔
      ∀ i, i + 1 < count → ∀ k, stride ≤ k → k < width →
        block i k = block (i + 1) (k - stride) := by
  have hshift (i k : Nat) (hk : stride ≤ k) :
      stride * i + k = stride * (i + 1) + (k - stride) := by
    rw [Nat.mul_succ]
    omega
  constructor
  · intro hwindows i hi k hk hkw
    have hhere := hwindows i (by omega) k hkw
    have hnext := hwindows (i + 1) hi (k - stride) (by omega)
    rw [← hshift i k hk] at hnext
    exact hhere.symm.trans hnext
  · intro hagree i hi
    -- downward from the last block, which nothing is laid over
    induction hdist : count - 1 - i generalizing i with
    | zero =>
        intro k hk
        obtain ⟨last, rfl⟩ : ∃ last, count = last + 1 := ⟨count - 1, by omega⟩
        have heq : i = last := by omega
        subst heq
        exact loadStrided_last k hk
    | succ dist ih =>
        intro k hk
        by_cases hks : stride ≤ k
        · rw [hshift i k hks, ih (i + 1) (by omega) (by omega) (k - stride) (by omega)]
          exact (hagree i (by omega) k hks hk).symm
        · have hbefore : stride * i + k < stride * (i + 1) := by
            rw [Nat.mul_succ]
            omega
          rw [loadStrided_before hbefore (by omega)]
          exact loadStrided_last k hk

end Strided

end LibFs.Foundation

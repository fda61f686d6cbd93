import Mathlib.Data.List.TakeWhile
import Mathlib.Data.List.OfFn
import Mathlib.Logic.Function.Basic

/-! Strings as the C code sees them: an argument is a pointer to bytes before a
terminator, a field is a fixed character array that may or may not hold one. -/
namespace LibFs

/-- A NUL-terminated argument: the bytes in front of its terminator. -/
structure CStr where
  bytes : List UInt8
  nulFree : 0 ∉ bytes

def CStr.empty : CStr := ⟨[], List.not_mem_nil⟩

def CStr.strlen (s : CStr) : Nat := s.bytes.length

abbrev CharArray (n : Nat) := Fin n → UInt8

def stringAt (bytes : List UInt8) : List UInt8 := bytes.takeWhile (· != 0)

theorem stringAt_nulFree {bytes : List UInt8} (h : 0 ∉ bytes) : stringAt bytes = bytes := by
  apply List.takeWhile_eq_self_iff.mpr
  intro byte hbyte
  simp only [bne_iff_ne, ne_eq]
  rintro rfl
  exact h hbyte

theorem nulFree_stringAt (bytes : List UInt8) : 0 ∉ stringAt bytes := by
  intro hmem
  simpa using List.mem_takeWhile_imp hmem

theorem stringAt_append {front : List UInt8} (h : 0 ∈ front) (rest : List UInt8) :
    stringAt (front ++ rest) = stringAt front := by
  unfold stringAt
  rw [List.takeWhile_append, if_neg]
  intro hlength
  have hall : front.takeWhile (· != 0) = front :=
    (List.takeWhile_prefix _).eq_of_length hlength
  exact nulFree_stringAt front (by rwa [stringAt, hall])

theorem stringAt_append_nulFree {front : List UInt8} (h : 0 ∉ front) (rest : List UInt8) :
    stringAt (front ++ rest) = front ++ stringAt rest := by
  have hall := stringAt_nulFree h
  unfold stringAt at hall ⊢
  rw [List.takeWhile_append, hall, if_pos rfl]

/-- The string of a character array, up to its first NUL. Of an array without one these are
all its bytes, and a reader of the string would go on behind them. -/
def CharArray.text (field : CharArray n) : List UInt8 := stringAt (List.ofFn field)

def CharArray.Terminated (field : CharArray n) : Prop := 0 ∈ List.ofFn field

instance (field : CharArray n) : Decidable field.Terminated :=
  inferInstanceAs (Decidable (_ ∈ _))

theorem CharArray.text_unterminated {field : CharArray n} (h : ¬ field.Terminated) :
    field.text = List.ofFn field :=
  stringAt_nulFree h

theorem CharArray.length_text_lt {field : CharArray n} (h : field.Terminated) :
    field.text.length < n := by
  have hprefix : field.text <+: List.ofFn field := List.takeWhile_prefix _
  refine lt_of_le_of_ne (by simpa using hprefix.length_le) fun hlength => ?_
  have hall : field.text = List.ofFn field := hprefix.eq_of_length (by simpa using hlength)
  have hfree : 0 ∉ field.text := nulFree_stringAt _
  rw [hall] at hfree
  exact hfree h

/-- `strcpy`, as far as it writes inside the array. -/
def CharArray.copy (field : CharArray n) (s : CStr) : CharArray n := fun i =>
  if h : i.val < s.bytes.length then s.bytes[i.val]
  else if i.val = s.bytes.length then 0
  else field i

@[simp] theorem CharArray.text_copy (field : CharArray n) (s : CStr) (h : s.strlen < n) :
    (field.copy s).text = s.bytes := by
  have hlength : s.bytes.length < n := h
  have hprefix : (List.ofFn (field.copy s)).take s.bytes.length = s.bytes := by
    apply List.ext_getElem
    · simp
      omega
    · intro i hleft hright
      simp [CharArray.copy, hright]
  have hrest : (List.ofFn (field.copy s)).drop s.bytes.length =
      0 :: (List.ofFn (field.copy s)).drop (s.bytes.length + 1) := by
    rw [List.drop_eq_getElem_cons (by simpa using hlength)]
    simp [CharArray.copy]
  have hchars : ∀ byte ∈ s.bytes, (byte != 0) = true := by
    intro byte hbyte
    simp only [bne_iff_ne, ne_eq]
    rintro rfl
    exact s.nulFree hbyte
  unfold CharArray.text stringAt
  rw [← List.take_append_drop s.bytes.length (List.ofFn (field.copy s)), hprefix, hrest,
    List.takeWhile_append_of_pos hchars]
  simp

theorem CharArray.terminated_copy (field : CharArray n) (s : CStr) (h : s.strlen < n) :
    (field.copy s).Terminated := by
  apply (List.mem_ofFn' _ _).mpr
  exact ⟨⟨s.strlen, h⟩, by simp [copy, CStr.strlen]⟩

theorem CharArray.text_eq_nil {field : CharArray (n + 1)} : field.text = [] ↔ field 0 = 0 := by
  unfold CharArray.text stringAt
  rw [List.ofFn_succ]
  by_cases h : field 0 = 0 <;> simp [h]

theorem CharArray.text_eq_iff {field : CharArray n} {bytes : List UInt8} (hfree : 0 ∉ bytes) :
    field.text = bytes ↔ ∃ h : bytes.length ≤ n,
      (∀ (i : Nat) (hi : i < bytes.length), field ⟨i, hi.trans_le h⟩ = bytes[i]) ∧
        ∀ hlt : bytes.length < n, field ⟨bytes.length, hlt⟩ = 0 := by
  induction bytes generalizing n with
  | nil =>
      cases n with
      | zero => simp [CharArray.text, stringAt]
      | succ n => simp [CharArray.text_eq_nil]
  | cons byte bytes ih =>
      obtain ⟨hbyte, hbytes⟩ : ¬ 0 = byte ∧ 0 ∉ bytes := by simpa using hfree
      cases n with
      | zero => simp [CharArray.text, stringAt]
      | succ n =>
          have htext : field.text = if field 0 = 0 then [] else
              field 0 :: CharArray.text fun i => field i.succ := by
            unfold CharArray.text stringAt
            rw [List.ofFn_succ]
            by_cases h : field 0 = 0 <;> simp [h]
          rw [htext]
          constructor
          · intro heq
            split at heq
            · contradiction
            · obtain ⟨hhead, htail⟩ := List.cons.inj heq
              obtain ⟨hle, hsame, hstop⟩ := (ih hbytes).mp htail
              refine ⟨Nat.succ_le_succ hle, fun i hi => ?_, fun hlt => ?_⟩
              · cases i with
                | zero => exact hhead
                | succ i => exact hsame i (Nat.lt_of_succ_lt_succ hi)
              · exact hstop (Nat.lt_of_succ_lt_succ hlt)
          · rintro ⟨hle, hsame, hstop⟩
            have hhead : field 0 = byte := hsame 0 (Nat.succ_pos _)
            rw [if_neg fun hzero => hbyte (hzero.symm.trans hhead), hhead]
            congr 1
            exact (ih hbytes).mpr ⟨Nat.le_of_succ_le_succ hle,
              fun i hi => hsame (i + 1) (Nat.succ_lt_succ hi),
              fun hlt => hstop (Nat.succ_lt_succ hlt)⟩

/-- `memset(field, 0, sizeof(char))`: one byte is enough to empty the string. -/
def CharArray.clearFirst (field : CharArray (n + 1)) : CharArray (n + 1) :=
  Function.update field 0 0

theorem CharArray.terminated_clearFirst (field : CharArray (n + 1)) :
    field.clearFirst.Terminated := by
  apply (List.mem_ofFn' _ _).mpr
  exact ⟨0, by simp [clearFirst]⟩

@[simp] theorem CharArray.text_clearFirst (field : CharArray (n + 1)) :
    field.clearFirst.text = [] := by
  simp [CharArray.text_eq_nil, CharArray.clearFirst]

end LibFs

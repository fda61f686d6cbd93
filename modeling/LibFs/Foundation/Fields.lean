import Mathlib.Data.List.TakeWhile

/-! The fields of a line: its non-empty pieces between separators. They can be taken off
one by one, each time skipping the separators in front. -/
namespace LibFs.Foundation

variable {α : Type} [DecidableEq α]

def fields (sep : α) (line : List α) : List (List α) :=
  (line.splitOn sep).filter fun piece => !piece.isEmpty

/-- Take the next field off: the field, when there is one, and the line behind the
separator that ends it. -/
def nextField (sep : α) (line : List α) : Option (List α) × List α :=
  let start := line.dropWhile (· == sep)
  if start.isEmpty then (none, [])
  else (some (start.takeWhile (· != sep)), (start.dropWhile (· != sep)).tail)

variable {sep : α} {line word rest : List α}

@[simp] theorem fields_nil : fields sep [] = [] := by
  simp [fields]

theorem fields_append_sep (line rest : List α) :
    fields sep (line ++ sep :: rest) = fields sep line ++ fields sep rest := by
  unfold fields
  rw [List.splitOn_append_cons_self, List.filter_append]

theorem fields_sep_cons (rest : List α) : fields sep (sep :: rest) = fields sep rest := by
  have hsplit : fields sep ([] ++ sep :: rest) = _ := fields_append_sep [] rest
  simpa using hsplit

theorem fields_word (hne : word ≠ []) (hword : sep ∉ word) : fields sep word = [word] := by
  unfold fields
  rw [List.splitOn_eq_singleton hword]
  simp [hne]

theorem fields_dropWhile (line : List α) :
    fields sep (line.dropWhile (· == sep)) = fields sep line := by
  induction line with
  | nil => rfl
  | cons head tail ih =>
      by_cases h : head = sep
      · subst h
        rw [List.dropWhile_cons_of_pos (by simp), ih, fields_sep_cons]
      · rw [List.dropWhile_cons_of_neg (by simpa using h)]

theorem flatten_fields (line : List α) : (fields sep line).flatten = line.filter (· != sep) := by
  unfold fields
  rw [List.flatten_filter_not_isEmpty]
  induction line with
  | nil => simp
  | cons head tail ih =>
      rw [List.splitOn_cons_eq_if_modifyHead]
      by_cases h : head = sep
      · simp [h, ih]
      · obtain ⟨piece, pieces, hsplit⟩ := List.exists_cons_of_ne_nil (List.splitOn_ne_nil sep tail)
        rw [hsplit] at ih
        simp only [beq_iff_eq, h, if_false, hsplit, List.modifyHead_cons, List.flatten_cons,
          List.cons_append, bne_iff_ne, ne_eq, not_false_eq_true, List.filter_cons_of_pos] at ih ⊢
        rw [ih]

theorem fields_eq_nil_iff : fields sep line = [] ↔ ∀ a ∈ line, a = sep := by
  constructor
  · intro hnil
    have hflat : (fields sep line).flatten = _ := flatten_fields line
    rw [hnil, List.flatten_nil, eq_comm, List.filter_eq_nil_iff] at hflat
    simpa using hflat
  · intro hall
    induction line with
    | nil => exact fields_nil
    | cons head tail ih =>
        rw [hall head List.mem_cons_self, fields_sep_cons]
        exact ih fun a ha => hall a (List.mem_cons_of_mem _ ha)

/-- What is appended to a line adds nothing to its fields when it consists of separators,
and only then. -/
theorem fields_append_eq_iff :
    fields sep (line ++ rest) = fields sep line ↔ ∀ a ∈ rest, a = sep := by
  constructor
  · intro heq
    have hflat := congrArg List.flatten heq
    rw [flatten_fields, flatten_fields, List.filter_append, List.append_right_eq_self,
      List.filter_eq_nil_iff] at hflat
    simpa using hflat
  · intro hall
    cases rest with
    | nil => rw [List.append_nil]
    | cons head tail =>
        rw [hall head List.mem_cons_self, fields_append_sep,
          fields_eq_nil_iff.mpr fun a ha => hall a (List.mem_cons_of_mem _ ha), List.append_nil]

theorem fields_of_head_ne {head : α} (hhead : head ≠ sep) (tail : List α) :
    fields sep (head :: tail) = (head :: tail).takeWhile (· != sep) ::
      fields sep ((head :: tail).dropWhile (· != sep)).tail := by
  have hsplit : (head :: tail).takeWhile (· != sep) ++ (head :: tail).dropWhile (· != sep) =
      head :: tail := List.takeWhile_append_dropWhile
  have hne : (head :: tail).takeWhile (· != sep) ≠ [] := by simp [hhead]
  have hword : sep ∉ (head :: tail).takeWhile (· != sep) := by
    intro hmem
    simpa using List.mem_takeWhile_imp hmem
  generalize (head :: tail).takeWhile (· != sep) = word at hsplit hne hword ⊢
  cases hrest : (head :: tail).dropWhile (· != sep) with
  | nil =>
      rw [hrest, List.append_nil] at hsplit
      rw [← hsplit, fields_word hne hword, List.tail_nil, fields_nil]
  | cons last rest =>
      have hlast : last = sep := by
        have hfails := List.head?_dropWhile_not (· != sep) (head :: tail)
        simpa [hrest] using hfails
      rw [hrest, hlast] at hsplit
      rw [← hsplit, fields_append_sep, fields_word hne hword]
      rfl

theorem nextField_fields (line : List α) :
    (nextField sep line).1 = (fields sep line).head? ∧
      fields sep (nextField sep line).2 = (fields sep line).tail := by
  rw [← fields_dropWhile line]
  unfold nextField
  cases hstart : line.dropWhile (· == sep) with
  | nil => simp
  | cons head tail =>
      have hhead : head ≠ sep := by
        have hfails := List.head?_dropWhile_not (· == sep) line
        simpa [hstart] using hfails
      rw [fields_of_head_ne hhead]
      simp

end LibFs.Foundation

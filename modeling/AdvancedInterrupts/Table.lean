/-!
# Fixed-size tables

A table holds one entry per index below its size. Reads outside the table give
the default entry and changes outside it have no effect, so register decoding
can be written with plain numbers and bounds appear where a rule needs them.
-/
namespace AdvancedInterrupts

/-- A table of `n` entries, stored as one array. -/
structure Table (n : Nat) (α : Type) where
  cells : Vector α n

namespace Table

variable {n : Nat} {α : Type}

/-- The table with the same entry everywhere. -/
def fill (n : Nat) (a : α) : Table n α := ⟨Vector.replicate n a⟩

/-- The entry at `i`, or the default one outside the table. -/
def get [Inhabited α] (t : Table n α) (i : Nat) : α := t.cells[i]?.getD default

/-- The table with the entry at `i` changed by `f`. -/
def modify (t : Table n α) (i : Nat) (f : α → α) : Table n α :=
  if h : i < n then ⟨t.cells.set i (f t.cells[i])⟩ else t

def set (t : Table n α) (i : Nat) (a : α) : Table n α := t.modify i fun _ => a

theorem get_of_le [Inhabited α] (t : Table n α) {i : Nat} (h : n ≤ i) :
    t.get i = default := by
  simp [get, Vector.getElem?_eq_none h]

theorem get_fill [Inhabited α] {a : α} {i : Nat} (h : i < n) : (fill n a).get i = a := by
  simp [get, fill, h]

@[simp] theorem get_fill_default [Inhabited α] (i : Nat) :
    (fill n (default : α)).get i = default := by
  by_cases h : i < n
  · exact get_fill h
  · exact get_of_le _ (Nat.le_of_not_lt h)

theorem get_modify [Inhabited α] (t : Table n α) (i j : Nat) (f : α → α) :
    (t.modify i f).get j = if i = j ∧ j < n then f (t.get j) else t.get j := by
  unfold modify
  by_cases h : i < n
  · by_cases hij : i = j
    · subst hij
      simp [get, h]
    · simp [get, h, hij]
  · have hn : ¬ (i = j ∧ j < n) := by omega
    simp [h, hn]

theorem get_modify_self [Inhabited α] (t : Table n α) {i : Nat} (f : α → α) (h : i < n) :
    (t.modify i f).get i = f (t.get i) := by
  simp [get_modify, h]

theorem get_modify_ne [Inhabited α] (t : Table n α) {i j : Nat} (f : α → α) (h : i ≠ j) :
    (t.modify i f).get j = t.get j := by
  simp [get_modify, h]

theorem get_set [Inhabited α] (t : Table n α) (i j : Nat) (a : α) :
    (t.set i a).get j = if i = j ∧ j < n then a else t.get j :=
  get_modify t i j _

/-- Two tables with the same entries are equal. -/
theorem ext_get [Inhabited α] {t u : Table n α} (h : ∀ i < n, t.get i = u.get i) : t = u := by
  obtain ⟨t⟩ := t
  obtain ⟨u⟩ := u
  congr 1
  ext i hi
  simpa [get, hi] using h i hi

theorem modify_congr [Inhabited α] (t : Table n α) {i : Nat} {f g : α → α}
    (h : f (t.get i) = g (t.get i)) : t.modify i f = t.modify i g := by
  apply ext_get
  intro j _
  rw [get_modify, get_modify]
  split
  next hij => rw [← hij.1, h]
  next => rfl

theorem modify_eq_self [Inhabited α] (t : Table n α) {i : Nat} {f : α → α}
    (h : f (t.get i) = t.get i) : t.modify i f = t := by
  apply ext_get
  intro j _
  rw [get_modify]
  split
  next hij => rw [← hij.1, h]
  next => rfl

theorem modify_modify [Inhabited α] (t : Table n α) (i : Nat) (f g : α → α) :
    (t.modify i f).modify i g = t.modify i fun a => g (f a) := by
  apply ext_get
  intro j _
  simp only [get_modify]
  split <;> rfl

/-- Changes of different entries can be made in either order. -/
theorem modify_comm [Inhabited α] (t : Table n α) {i j : Nat} (h : i ≠ j) (f g : α → α) :
    (t.modify i f).modify j g = (t.modify j g).modify i f := by
  apply ext_get
  intro k _
  simp only [get_modify]
  by_cases hik : i = k
  · have hjk : j ≠ k := fun hjk => h (hik.trans hjk.symm)
    simp only [hik, hjk, false_and, if_false]
  · simp only [hik, false_and, if_false]

end Table

end AdvancedInterrupts

import Mathlib.Data.List.DropRight
import TagWire.Text.Blank

/-! Trimmed and split text. What is left of a text is all of it but the blanks on its two sides, and
parts that are put together with separators come apart again as they were. -/
namespace TagWire.Text

structure Tight (cs : List Char) : Prop where
  first : ∀ c ∈ cs.head?, isBlank c = false
  last : ∀ c ∈ cs.getLast?, isBlank c = false

structure Padding where
  before : List Char
  after : List Char
  blank_before : ∀ c ∈ before, isBlank c = true
  blank_after : ∀ c ∈ after, isBlank c = true

def Padding.around (p : Padding) (cs : List Char) : List Char := p.before ++ cs ++ p.after

theorem Padding.isBlank_or_mem {p : Padding} {cs : List Char} {c : Char} (h : c ∈ p.around cs) :
    isBlank c = true ∨ c ∈ cs := by
  rw [around, List.mem_append, List.mem_append] at h
  rcases h with (h | h) | h
  · exact .inl (p.blank_before c h)
  · exact .inr h
  · exact .inl (p.blank_after c h)

theorem tight_of_any {cs : List Char} (h : cs.any isBlank = false) : Tight cs := by
  have hall : ∀ c ∈ cs, isBlank c = false := by simpa using h
  exact ⟨fun c hc => hall c (List.mem_of_mem_head? hc),
    fun c hc => hall c (List.mem_of_mem_getLast? hc)⟩

theorem isBlank_of_isDigit {c : Char} (h : c.isDigit = true) : isBlank c = false := by
  have hc : 48 ≤ c.toNat ∧ c.toNat ≤ 57 := by simpa [Char.isDigit, UInt32.le_iff_toNat_le] using h
  simp [isBlank]
  omega

theorem trim_eq (cs : List Char) : trim cs = (cs.dropWhile isBlank).rdropWhile isBlank := rfl

theorem tight_trim (cs : List Char) : Tight (trim cs) := by
  rw [trim_eq]
  constructor
  · intro c hc
    have hfirst := List.head?_dropWhile_not isBlank cs
    obtain ⟨rest, hrest⟩ := List.rdropWhile_prefix isBlank (cs.dropWhile isBlank)
    rw [← hrest, List.head?_append, hc] at hfirst
    exact hfirst
  · intro c hc
    obtain ⟨hne, rfl⟩ := List.mem_getLast?_eq_getLast hc
    simpa using List.rdropWhile_last_not isBlank _ hne

theorem dropWhile_blanks_append {blanks cs : List Char} (hb : ∀ c ∈ blanks, isBlank c = true)
    (h : ∀ c ∈ cs.head?, isBlank c = false) : (blanks ++ cs).dropWhile isBlank = cs := by
  rw [List.dropWhile_append_of_pos hb]
  cases cs with
  | nil => rfl
  | cons c cs => simp [h c rfl]

theorem trim_around (p : Padding) {cs : List Char} (h : Tight cs) : trim (p.around cs) = cs := by
  rw [trim_eq, Padding.around]
  by_cases hcs : cs = []
  · have hall : (p.before ++ p.after).dropWhile isBlank = [] := by
      rw [List.dropWhile_append_of_pos p.blank_before, List.dropWhile_eq_nil_iff]
      exact p.blank_after
    rw [hcs, List.append_nil, hall, List.rdropWhile_nil]
  · have hfirst : ∀ c ∈ (cs ++ p.after).head?, isBlank c = false := by
      rw [List.head?_append_of_ne_nil _ hcs]
      exact h.first
    have hafter : ∀ c ∈ p.after.reverse, isBlank c = true := by
      intro c hc
      exact p.blank_after c (List.mem_reverse.1 hc)
    have hlast : ∀ c ∈ cs.reverse.head?, isBlank c = false := by
      rw [List.head?_reverse]
      exact h.last
    rw [List.append_assoc, dropWhile_blanks_append p.blank_before hfirst, List.rdropWhile,
      List.reverse_append, dropWhile_blanks_append hafter hlast, List.reverse_reverse]

theorem exists_around_trim (cs : List Char) : ∃ p : Padding, cs = p.around (trim cs) := by
  refine ⟨⟨cs.takeWhile isBlank, (cs.dropWhile isBlank).rtakeWhile isBlank,
    fun c => List.mem_takeWhile_imp, fun c => List.mem_rtakeWhile_imp⟩, ?_⟩
  rw [Padding.around, trim_eq, List.append_assoc, List.rdropWhile_append_rtakeWhile,
    List.takeWhile_append_dropWhile]

theorem mem_of_mem_trim {c : Char} {cs : List Char} (h : c ∈ trim cs) : c ∈ cs := by
  obtain ⟨p, hp⟩ := exists_around_trim cs
  rw [hp, Padding.around, List.mem_append, List.mem_append]
  exact .inl (.inr h)

theorem trim_eq_iff {cs inner : List Char} :
    trim cs = inner ↔ Tight inner ∧ ∃ p : Padding, cs = p.around inner := by
  constructor
  · rintro rfl
    exact ⟨tight_trim cs, exists_around_trim cs⟩
  · rintro ⟨h, p, rfl⟩
    exact trim_around p h

theorem partsAt_eq_splitOn (separator : Char) (cs : List Char) :
    partsAt separator cs = cs.splitOn separator := by
  induction cs with
  | nil => rfl
  | cons c cs ih =>
    rw [List.splitOn_cons_eq_if_modifyHead, partsAt, ih]
    simp only [beq_iff_eq]
    split
    · rfl
    · obtain ⟨part, rest, h⟩ := List.exists_cons_of_ne_nil (List.splitOn_ne_nil separator cs)
      rw [h, List.modifyHead_cons]

theorem not_mem_of_mem_splitOn {separator : Char} {cs part : List Char}
    (h : part ∈ cs.splitOn separator) : separator ∉ part := by
  induction cs generalizing part with
  | nil => simp_all
  | cons c cs ih =>
    obtain ⟨first, rest, hs⟩ := List.exists_cons_of_ne_nil (List.splitOn_ne_nil separator cs)
    rw [hs] at ih
    rw [List.splitOn_cons_eq_if_modifyHead, hs] at h
    simp only [beq_iff_eq, List.modifyHead_cons] at h
    split at h
    · rcases List.mem_cons.1 h with rfl | h
      · exact List.not_mem_nil
      · exact ih h
    · next hc =>
      rcases List.mem_cons.1 h with rfl | h
      · rw [List.mem_cons, not_or]
        exact ⟨Ne.symm hc, ih List.mem_cons_self⟩
      · exact ih (List.mem_cons_of_mem first h)

end TagWire.Text

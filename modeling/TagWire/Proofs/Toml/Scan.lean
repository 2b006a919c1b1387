import TagWire.Toml.Scan

/-! What scanners do in front of a text. Sequences and alternatives go by what their first part does
there; repetition goes on as long as it takes something. -/
namespace TagWire.Toml.Scan

variable {α β : Type} {x y : Scan α} {f : α → Scan β} {cs ds rest : List Char} {a : α} {s : String}
  {p : Char → Bool} {c : Char}

theorem bind_of_some (h : x cs = some (a, ds)) : (x >>= f) cs = f a ds := by
  show (x cs >>= fun r => f r.1 r.2) = _
  rw [h]
  rfl

theorem bind_of_none (h : x cs = none) : (x >>= f) cs = none := by
  show (x cs >>= fun r => f r.1 r.2) = _
  rw [h]
  rfl

theorem exists_of_bind {r : β × List Char} (h : (x >>= f) cs = some r) :
    ∃ a ds, x cs = some (a, ds) ∧ f a ds = some r := by
  obtain ⟨⟨a, ds⟩, hx, hf⟩ := Option.bind_eq_some_iff.1 h
  exact ⟨a, ds, hx, hf⟩

theorem map_of_some (g : α → β) (h : x cs = some (a, ds)) : (g <$> x) cs = some (g a, ds) := by
  show (x cs >>= fun r => some (g r.1, r.2)) = _
  rw [h]
  rfl

theorem map_of_none (g : α → β) (h : x cs = none) : (g <$> x) cs = none := by
  show (x cs >>= fun r => some (g r.1, r.2)) = _
  rw [h]
  rfl

theorem orElse_of_some {r : α × List Char} (h : x cs = some r) : (x <|> y) cs = some r := by
  show (x cs <|> y cs) = _
  rw [h]
  rfl

theorem orElse_of_none (h : x cs = none) : (x <|> y) cs = y cs := by
  show (x cs <|> y cs) = _
  rw [h]
  rfl

theorem optionally_of_none {x : Scan Unit} (h : x cs = none) : optionally x cs = some ((), cs) :=
  orElse_of_none h

theorem satisfy_of_pos (h : p c = true) (cs : List Char) : satisfy p (c :: cs) = some (c, cs) :=
  if_pos h

theorem satisfy_of_neg (h : p c = false) (cs : List Char) : satisfy p (c :: cs) = none :=
  if_neg (by simp [h])

theorem eq_cons_of_satisfy (h : satisfy p cs = some (c, ds)) : cs = c :: ds ∧ p c = true := by
  cases cs with
  | nil => cases h
  | cons d cs =>
    by_cases hd : p d = true
    · cases (satisfy_of_pos hd cs).symm.trans h
      exact ⟨rfl, hd⟩
    · cases (satisfy_of_neg (Bool.of_not_eq_true hd) cs).symm.trans h

theorem exactly_eq_none_iff : exactly s cs = none ↔ ¬ s.toList <+: cs := by
  unfold exactly
  rw [← List.isPrefixOf_iff_prefix]
  split <;> simp_all

theorem exactly_append (h : s.toList = ds) (cs : List Char) :
    exactly s (ds ++ cs) = some ((), cs) := by
  subst h
  unfold exactly
  rw [if_pos (List.isPrefixOf_iff_prefix.2 (List.prefix_append _ _)), ← String.length_toList,
    List.drop_left]

theorem exactly_cons_of_ne {first : Char} {more : List Char} (hs : s.toList = first :: more)
    (h : c ≠ first) (cs : List Char) : exactly s (c :: cs) = none := by
  rw [exactly_eq_none_iff, hs, List.cons_prefix_cons]
  rintro ⟨rfl, -⟩
  exact h rfl

theorem exactly_nil {first : Char} {more : List Char} (hs : s.toList = first :: more) :
    exactly s [] = none := by
  rw [exactly_eq_none_iff, hs, List.prefix_nil]
  exact List.cons_ne_nil _ _

theorem exactly_of_head? {first : Char} {more : List Char} (hs : s.toList = first :: more)
    (h : cs.head? ≠ some first) : exactly s cs = none := by
  cases cs with
  | nil => exact exactly_nil hs
  | cons c cs => exact exactly_cons_of_ne hs (by simpa using h) cs

theorem span_append (h : ∀ c ∈ cs, p c = true) (hrest : ∀ c ∈ rest.head?, p c = false) :
    span p (cs ++ rest) = some (cs, rest) := by
  have htake : rest.takeWhile p = [] := by
    cases rest with
    | nil => rfl
    | cons c rest => exact List.takeWhile_cons_of_neg (by simp [hrest c rfl])
  have hdrop : rest.dropWhile p = rest := by
    cases rest with
    | nil => rfl
    | cons c rest => exact List.dropWhile_cons_of_neg (by simp [hrest c rfl])
  unfold span
  rw [List.takeWhile_append_of_pos h, List.dropWhile_append_of_pos h, htake, hdrop,
    List.append_nil]

/-- From a text the scanner takes one thing after the other until, before `rest`, it takes no
more. -/
inductive Repeats (x : Scan α) (rest : List Char) : List Char → List α → Prop
  | stop (h : x rest = none) : Repeats x rest rest []
  | step {text left : List Char} {first : α} {more : List α} (h : x text = some (first, left))
      (shorter : left.length < text.length) (tail : Repeats x rest left more) :
      Repeats x rest text (first :: more)

theorem Repeats.cons {text : List Char} {as : List α} (hx : x (ds ++ text) = some (a, text))
    (hd : ds ≠ []) (h : Repeats x rest text as) : Repeats x rest (ds ++ text) (a :: as) := by
  refine .step hx ?_ h
  have := List.length_pos_iff.2 hd
  simp only [List.length_append]
  omega

theorem upTo_of_repeats {as : List α} (h : Repeats x rest cs as) {limit : Nat}
    (hlimit : cs.length ≤ limit) : upTo x limit cs = some (as, rest) := by
  induction h generalizing limit with
  | stop hx =>
    cases limit with
    | zero => rfl
    | succ limit =>
      rw [upTo, orElse_of_none (bind_of_none hx)]
      rfl
  | step hx hshorter _ ih =>
    cases limit with
    | zero => omega
    | succ limit =>
      rw [upTo]
      apply orElse_of_some
      rw [bind_of_some hx, bind_of_some (ih (by omega))]
      rfl

theorem many_of_repeats {as : List α} (h : Repeats x rest cs as) : many x cs = some (as, rest) :=
  upTo_of_repeats h (Nat.le_refl _)

theorem separated_of_none {separator : Scan Unit} (hx : x cs = some (a, rest))
    (hseparator : separator rest = none) : separated separator x cs = some ([a], rest) := by
  have hmore : many (do separator; x) rest = some ([], rest) :=
    many_of_repeats (.stop (bind_of_none hseparator))
  rw [separated, bind_of_some hx, bind_of_some hmore]
  rfl

end TagWire.Toml.Scan

import TagWire.Proofs.Toml.Number
import TagWire.Proofs.Toml.Quote

/-! Values that are not nested are read back, before whatever does not go on with them. -/
namespace TagWire.Toml

open Scan

variable {rest : List Char} {c : Char} {levels : Nat}

theorem string_of_ne (hquote : c ≠ '"') (hapostrophe : c ≠ '\'') (rest : List Char) :
    string (c :: rest) = none := by
  have hmultilineLiteral : multilineLiteral (c :: rest) = none :=
    multiline_of_not_prefix fun h => hapostrophe (List.cons_prefix_cons.1 h).1.symm
  have hliteral : literal (c :: rest) = none :=
    bind_of_none (exactly_cons_of_ne rfl hapostrophe rest)
  apply (orElse_of_none (multilineBasic_of_ne hquote rest)).trans
  apply (orElse_of_none (basic_of_ne hquote rest)).trans
  exact (orElse_of_none hmultilineLiteral).trans hliteral

theorem value_string (s : String) (hquote : rest.head? ≠ some '"')
    (hapostrophe : rest.head? ≠ some '\'') :
    value (levels + 1) ((render s).toList ++ rest) = some (.string s, rest) :=
  orElse_of_some (map_of_some _ (string_render s hquote hapostrophe))

theorem value_boolean (b : Bool) :
    value (levels + 1) ((if b then "true" else "false").toList ++ rest) =
      some (.boolean b, rest) := by
  cases b with
  | true =>
    have hstring : (Value.string <$> string) ("true".toList ++ rest) = none :=
      map_of_none _ (string_of_ne (by decide) (by decide) _)
    have htrue : exactly "true" ("true".toList ++ rest) = some ((), rest) := exactly_append rfl rest
    exact (orElse_of_none hstring).trans (orElse_of_some (bind_of_some htrue))
  | false =>
    have hstring : (Value.string <$> string) ("false".toList ++ rest) = none :=
      map_of_none _ (string_of_ne (by decide) (by decide) _)
    have htrue : exactly "true" ("false".toList ++ rest) = none :=
      exactly_cons_of_ne rfl (by decide) _
    have hfalse : exactly "false" ("false".toList ++ rest) = some ((), rest) :=
      exactly_append rfl rest
    exact (orElse_of_none hstring).trans ((orElse_of_none (bind_of_none htrue)).trans
      (orElse_of_some (bind_of_some hfalse)))

/-- Nothing else starts as an integer does, dates and floats apart. -/
theorem value_of_numeric (hc : c.isDigit = true ∨ c = '-') (rest : List Char) :
    value (levels + 1) (c :: rest) =
      ((do date; return Value.other) <|> (do float; return Value.other) <|>
        (.integer <$> integer) : Scan Value) (c :: rest) := by
  have hother (first : Char) (hfirst : first.isDigit = false) (hminus : first ≠ '-') :
      c ≠ first := by
    rintro rfl
    rcases hc with hc | hc
    · simp [hfirst] at hc
    · exact hminus hc
  have hstring : (Value.string <$> string) (c :: rest) = none :=
    map_of_none _ (string_of_ne (hother '"' rfl (by decide)) (hother '\'' rfl (by decide)) _)
  have hexactly (s : String) (first : Char) (more : List Char) (hs : s.toList = first :: more)
      (hfirst : first.isDigit = false) (hminus : first ≠ '-') : exactly s (c :: rest) = none :=
    exactly_cons_of_ne hs (hother first hfirst hminus) rest
  have htrue := hexactly "true" 't' _ rfl rfl (by decide)
  have hfalse := hexactly "false" 'f' _ rfl rfl (by decide)
  have harray : array (value levels) (c :: rest) = none :=
    bind_of_none (hexactly "[" '[' _ rfl rfl (by decide))
  have htable : inlineTable (value levels) (c :: rest) = none :=
    bind_of_none (hexactly "\x7b" '\x7b' _ rfl rfl (by decide))
  apply (orElse_of_none hstring).trans
  apply (orElse_of_none (bind_of_none htrue)).trans
  apply (orElse_of_none (bind_of_none hfalse)).trans
  apply orElse_of_none
  split
  · rfl
  · exact (orElse_of_none harray).trans htable

theorem value_integer {z : Int} (hz : IntKind.i64.Fits z) (hrest : Closes rest) :
    value (levels + 1) ((toString z).toList ++ rest) = some (.integer z, rest) := by
  have hds := written_toDigits z.natAbs
  have hdate : date ((toString z).toList ++ rest) = none := by
    rw [toList_toString_append]
    exact date_signed hds.digits hrest
  have hfloat : float ((toString z).toList ++ rest) = none := by
    rw [toList_toString_append]
    exact float_signed hds hrest
  obtain ⟨c, more, htext, hc⟩ : ∃ c more, (toString z).toList ++ rest = c :: more ∧
      (c.isDigit = true ∨ c = '-') := by
    obtain ⟨d, more, hdigits, hd, -⟩ := hds.exists_cons
    rw [toList_toString_append, hdigits]
    cases decide (z < 0) with
    | true => exact ⟨'-', _, rfl, .inr rfl⟩
    | false => exact ⟨d, _, rfl, .inl hd⟩
  have hinteger := integer_toString hz hrest
  rw [htext] at hdate hfloat hinteger ⊢
  rw [value_of_numeric hc]
  apply (orElse_of_none (bind_of_none hdate)).trans
  apply (orElse_of_none (bind_of_none hfloat)).trans
  exact map_of_some _ hinteger

end TagWire.Toml

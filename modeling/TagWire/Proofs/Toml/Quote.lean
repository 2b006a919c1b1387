import TagWire.Proofs.Toml.Scan
import TagWire.Toml.Quote

/-! Strings are read back. Each of the four forms says its string in front of any text that does not
go on with a quotation mark, and the form that is chosen has the characters that it can show. -/
namespace TagWire.Toml

open Scan

variable {c q : Char} {cs text rest : List Char}

/-! ### Characters -/

theorem basicChar_plain (h : isStringChar c = true) (hquote : c ≠ '"') (hslash : c ≠ '\\')
    (rest : List Char) : basicChar (c :: rest) = some (c, rest) :=
  orElse_of_some (satisfy_of_pos (by simp [h, hquote, hslash]) rest)

theorem basicChar_escape (h : escape text = some (c, rest)) :
    basicChar ('\\' :: text) = some (c, rest) := by
  have hplain : satisfy (fun c => isStringChar c && c != '"' && c != '\\') ('\\' :: text) = none :=
    satisfy_of_neg (by decide) text
  have hslash : exactly "\\" ('\\' :: text) = some ((), text) := rfl
  rw [basicChar, orElse_of_none hplain, bind_of_some hslash, h]

theorem escape_codePoint {a b d : Char} {n : Nat} (h : hexValue? [a, b, c, d] = some n)
    (hn : n.isValidChar) (rest : List Char) :
    escape ('u' :: a :: b :: c :: d :: rest) = some (Char.ofNat n, rest) := by
  have hdigits : (List.range 4).mapM (fun _ => satisfy fun _ => true) (a :: b :: c :: d :: rest) =
      some ([a, b, c, d], rest) := rfl
  show codePoint 4 (a :: b :: c :: d :: rest) = _
  rw [codePoint, bind_of_some hdigits]
  simp only [h, if_pos hn]
  rfl

theorem hexValue?_toDigits {n : Nat} (hn : n < 128) :
    let digits := (Nat.toDigits 16 n).map Char.toUpper
    ∃ a b c d, List.replicate (4 - digits.length) '0' ++ digits = [a, b, c, d] ∧
      hexValue? [a, b, c, d] = some n := by
  intro digits
  have hall : ∀ n : Fin 128,
      let digits := (Nat.toDigits 16 n.val).map Char.toUpper
      let padded := List.replicate (4 - digits.length) '0' ++ digits
      padded.length = 4 ∧ hexValue? padded = some n.val := by decide +kernel
  obtain ⟨hlen, hvalue⟩ := hall ⟨n, hn⟩
  match hpadded : List.replicate (4 - digits.length) '0' ++ digits, hlen with
  | [a, b, c, d], _ => exact ⟨a, b, c, d, rfl, hpadded ▸ hvalue⟩

/-- An escape does not take up the end of a line. -/
theorem escaped_cases (lines : Bool) (c : Char) :
    (∃ e more, (escaped lines c).toList = '\\' :: e :: more ∧ isGap e = false ∧ e ≠ '\n' ∧
      e ≠ '\r') ∨
    (escaped lines c).toList = [c] ∧ c ≠ '\\' ∧ (c = '\n' ∨ isStringChar c = true) := by
  have hc := (Char.ofNat_toNat c).symm
  unfold escaped
  split
  case h_3 h =>
    cases lines with
    | false => exact .inl ⟨'n', [], rfl, by decide⟩
    | true =>
      rw [h] at hc
      exact .inr ⟨congrArg (fun c => [c]) hc.symm, by rw [hc]; decide, .inl hc⟩
  case h_7 hslash =>
    split
    · exact .inl ⟨'u', _, String.toList_append, by decide⟩
    · refine .inr ⟨String.toList_singleton c, ?_, .inr ?_⟩
      · rintro rfl
        exact hslash rfl
      · simp [isStringChar]
        omega
  all_goals exact .inl ⟨_, [], rfl, by decide⟩

theorem toList_escaped_ne_nil (lines : Bool) (c : Char) : (escaped lines c).toList ≠ [] := by
  rcases escaped_cases lines c with ⟨e, more, h, -⟩ | ⟨h, -⟩ <;> simp [h]

theorem basicChar_escaped {lines : Bool} (hquote : c ≠ '"') (hline : lines = true → c ≠ '\n')
    (rest : List Char) : basicChar ((escaped lines c).toList ++ rest) = some (c, rest) := by
  have hc := (Char.ofNat_toNat c).symm
  unfold escaped
  split
  · next h => rw [hc, h]; exact basicChar_escape rfl
  · next h => rw [hc, h]; exact basicChar_escape rfl
  · next h =>
    rw [h] at hc
    cases lines with
    | false => rw [hc]; exact basicChar_escape rfl
    | true => exact absurd hc (hline rfl)
  · next h => rw [hc, h]; exact basicChar_escape rfl
  · next h => rw [hc, h]; exact basicChar_escape rfl
  · next h => rw [hc, h]; exact basicChar_escape rfl
  · next htab hfeed _ _ hslash =>
    split
    · next hcontrol =>
      obtain ⟨a, b, d, e, hdigits, hvalue⟩ := hexValue?_toDigits (n := c.toNat) (by omega)
      dsimp only at hdigits ⊢
      rw [hdigits]
      simp only [String.toList_append, String.toList_ofList, List.append_assoc]
      have hvalid : c.toNat.isValidChar := c.valid
      conv => rhs; rw [hc]
      exact basicChar_escape (escape_codePoint hvalue hvalid rest)
    · next hplain =>
      rw [String.toList_singleton]
      apply basicChar_plain
      · simp [isStringChar]
        omega
      · exact hquote
      · rintro rfl
        exact hslash rfl

/-! ### One line -/

theorem toList_escapedFrom_cons {lines : Bool} (run : Nat) (hc : c ≠ '"') (cs : List Char) :
    (escapedFrom lines run (c :: cs)).toList =
      (escaped lines c).toList ++ (escapedFrom lines 0 cs).toList := by
  rw [escapedFrom, if_neg hc, String.toList_append]

theorem toList_escapedFrom_quote (run : Nat) (cs : List Char) :
    (escapedFrom false run ('"' :: cs)).toList =
      ['\\', '"'] ++ (escapedFrom false 0 cs).toList := by
  rw [escapedFrom, if_pos rfl, if_neg (by simp), String.toList_append]
  rfl

theorem repeats_basicChar (cs rest : List Char) :
    Repeats basicChar ('"' :: rest) ((escapedFrom false 0 cs).toList ++ '"' :: rest) cs := by
  induction cs with
  | nil => exact .stop rfl
  | cons c cs ih =>
    by_cases hc : c = '"'
    · subst hc
      rw [toList_escapedFrom_quote, List.append_assoc]
      have hfirst (rest : List Char) : basicChar (['\\', '"'] ++ rest) = some ('"', rest) :=
        basicChar_escape rfl
      exact ih.cons (hfirst _) (List.cons_ne_nil _ _)
    · rw [toList_escapedFrom_cons 0 hc, List.append_assoc]
      have hfirst (rest : List Char) :
          basicChar ((escaped false c).toList ++ rest) = some (c, rest) :=
        basicChar_escaped hc (by simp) rest
      exact ih.cons (hfirst _) (toList_escaped_ne_nil _ _)

theorem basic_append (cs rest : List Char) :
    basic ('"' :: ((escapedFrom false 0 cs).toList ++ '"' :: rest)) =
      some (String.ofList cs, rest) := by
  have hopen (cs : List Char) : exactly "\"" ('"' :: cs) = some ((), cs) := rfl
  rw [basic, bind_of_some (hopen _), bind_of_some (many_of_repeats (repeats_basicChar cs rest)),
    bind_of_some (hopen _)]
  rfl

theorem literal_append (h : ∀ c ∈ cs, isStringChar c = true ∧ c ≠ '\'') (rest : List Char) :
    literal ('\'' :: (cs ++ '\'' :: rest)) = some (String.ofList cs, rest) := by
  have hspan : span (fun c => isStringChar c && c != '\'') (cs ++ '\'' :: rest) =
      some (cs, '\'' :: rest) := by
    apply span_append
    · simpa using h
    · simp
  have hopen (cs : List Char) : exactly "'" ('\'' :: cs) = some ((), cs) := rfl
  rw [literal, bind_of_some (hopen _), bind_of_some hspan, bind_of_some (hopen _)]
  rfl

/-! ### Several lines -/

/-- The text shows the characters: a piece for each, and quotation marks as they are, one or two at
a time. -/
inductive Shows (q : Char) (piece : Scan (List Char)) : List Char → List Char → Prop
  | nil : Shows q piece [] []
  | piece {ds text cs : List Char} {c : Char} (hd : ∃ d more, ds = d :: more ∧ d ≠ q)
      (h : ∀ rest, piece (ds ++ rest) = some ([c], rest)) (tail : Shows q piece text cs) :
      Shows q piece (ds ++ text) (c :: cs)
  | quotes {text cs : List Char} (run : Nat) (hrun : run = 1 ∨ run = 2) (hd : text.head? ≠ some q)
      (tail : Shows q piece text cs) :
      Shows q piece (List.replicate run q ++ text) (List.replicate run q ++ cs)

theorem takeWhile_replicate_append (run : Nat) (hrest : rest.head? ≠ some q) :
    (List.replicate run q ++ rest).takeWhile (· = q) = List.replicate run q := by
  rw [List.takeWhile_append_of_pos (by simp)]
  cases rest with
  | nil => simp
  | cons c rest =>
    have hc : c ≠ q := by simpa using hrest
    rw [List.takeWhile_cons_of_neg (by simpa using hc), List.append_nil]

theorem innerQuotes_append {run : Nat} (hrun : run = 1 ∨ run = 2) (hrest : rest.head? ≠ some q) :
    innerQuotes q (List.replicate run q ++ rest) = some (List.replicate run q, rest) := by
  unfold innerQuotes
  rw [takeWhile_replicate_append run hrest, List.length_replicate]
  rcases hrun with rfl | rfl <;> rfl

theorem innerQuotes_of_closing (run : Nat) (hrest : rest.head? ≠ some q) :
    innerQuotes q (List.replicate (run + 3) q ++ rest) = none := by
  unfold innerQuotes
  rw [takeWhile_replicate_append _ hrest, List.length_replicate]
  rfl

theorem closingQuotes_append {run : Nat} (hrun : run ≤ 2) (hrest : rest.head? ≠ some q) :
    closingQuotes q (List.replicate (run + 3) q ++ rest) = some (List.replicate run q, rest) := by
  unfold closingQuotes
  rw [takeWhile_replicate_append _ hrest, List.length_replicate]
  obtain rfl | rfl | rfl : run = 0 ∨ run = 1 ∨ run = 2 := by omega
  all_goals rfl

section Multiline

variable {piece : Scan (List Char)} (hpiece : ∀ rest, piece (q :: rest) = none)
  (hrest : rest.head? ≠ some q)

include hpiece hrest

/-- Up to two quotation marks right before the closing ones are left to these. -/
theorem Shows.repeats (h : Shows q piece text cs) : ∃ pieces run, run ≤ 2 ∧
    pieces.flatten ++ List.replicate run q = cs ∧
    Repeats (piece <|> innerQuotes q) (List.replicate (run + 3) q ++ rest)
      (text ++ (List.replicate 3 q ++ rest)) pieces := by
  have hmarks (run : Nat) (cs : List Char) :
      (piece <|> innerQuotes q) (List.replicate (run + 1) q ++ cs) =
        innerQuotes q (List.replicate (run + 1) q ++ cs) := orElse_of_none (hpiece _)
  have hstop (run : Nat) :
      (piece <|> innerQuotes q) (List.replicate (run + 3) q ++ rest) = none :=
    (hmarks _ _).trans (innerQuotes_of_closing run hrest)
  induction h with
  | nil => exact ⟨[], 0, Nat.zero_le _, rfl, .stop (hstop 0)⟩
  | @piece ds text cs c hd h _ ih =>
    obtain ⟨pieces, run, hrun, hcs, hrep⟩ := ih
    refine ⟨[c] :: pieces, run, hrun, by simp [← hcs], ?_⟩
    obtain ⟨d, more, rfl, -⟩ := hd
    rw [List.append_assoc]
    exact hrep.cons (orElse_of_some (h _)) (List.cons_ne_nil _ _)
  | @quotes text cs run hrun hd htail ih =>
    cases text with
    | nil =>
      obtain rfl : cs = [] := by
        generalize hnil : ([] : List Char) = none at htail
        cases htail with
        | nil => rfl
        | piece hd => obtain ⟨d, more, rfl, -⟩ := hd; cases hnil
        | quotes run hrun => rcases hrun with rfl | rfl <;> cases hnil
      refine ⟨[], run, by omega, by simp, ?_⟩
      rw [List.append_nil, ← List.append_assoc, List.replicate_append_replicate]
      exact .stop (hstop run)
    | cons d text =>
      obtain ⟨pieces, last, hlast, hcs, hrep⟩ := ih
      refine ⟨List.replicate run q :: pieces, last, hlast, by simp [← hcs], ?_⟩
      rw [List.append_assoc]
      refine hrep.cons ?_ (by rcases hrun with rfl | rfl <;> simp)
      have hnext : (d :: text ++ (List.replicate 3 q ++ rest)).head? ≠ some q := hd
      obtain ⟨k, rfl⟩ : ∃ k, run = k + 1 := ⟨run - 1, by omega⟩
      exact (hmarks _ _).trans (innerQuotes_append hrun hnext)

end Multiline

/-- A line end right after the opening marks is not part of the string, and stands there if the
string has one of its own. -/
theorem multiline_append {piece : Scan (List Char)} (hpiece : ∀ rest, piece (q :: rest) = none)
    (hrest : rest.head? ≠ some q) (h : Shows q piece text cs) {opening : List Char}
    (hopening : opening = ['\n'] ∨
      opening = [] ∧ ∀ rest, newline (text ++ (List.replicate 3 q ++ rest)) = none) :
    multiline q piece (List.replicate 3 q ++ (opening ++ (text ++ (List.replicate 3 q ++ rest)))) =
      some (String.ofList cs, rest) := by
  obtain ⟨pieces, run, hrun, hcs, hrep⟩ := h.repeats hpiece hrest
  have hopen (cs : List Char) : exactly (String.ofList [q, q, q]) (List.replicate 3 q ++ cs) =
      some ((), cs) := exactly_append (String.toList_ofList) cs
  have hnewline : optionally newline (opening ++ (text ++ (List.replicate 3 q ++ rest))) =
      some ((), text ++ (List.replicate 3 q ++ rest)) := by
    rcases hopening with rfl | ⟨rfl, hnone⟩
    · rfl
    · exact optionally_of_none (hnone rest)
  rw [multiline, bind_of_some (hopen _), bind_of_some hnewline,
    bind_of_some (many_of_repeats hrep), bind_of_some (closingQuotes_append hrun hrest), hcs]
  rfl

/-- What stands between the quotation marks of a basic string over several lines. -/
def basicPiece : Scan (List Char) :=
  joinedLine <|> (do return [← basicChar]) <|> lineBreak

theorem joinedLine_of_ne (hc : c ≠ '\\') (rest : List Char) : joinedLine (c :: rest) = none :=
  bind_of_none (exactly_cons_of_ne rfl hc rest)

theorem newline_of_ne (hfeed : c ≠ '\n') (hreturn : c ≠ '\r') (rest : List Char) :
    newline (c :: rest) = none :=
  (orElse_of_none (exactly_cons_of_ne rfl hfeed rest)).trans (exactly_cons_of_ne rfl hreturn rest)

theorem joinedLine_slash (hgap : isGap c = false) (hfeed : c ≠ '\n') (hreturn : c ≠ '\r')
    (rest : List Char) : joinedLine ('\\' :: c :: rest) = none := by
  have hslash : exactly "\\" ('\\' :: c :: rest) = some ((), c :: rest) := rfl
  have hspan : span isGap ([] ++ (c :: rest)) = some ([], c :: rest) :=
    span_append (by simp) (by simpa using hgap)
  rw [joinedLine, bind_of_some hslash, gap, bind_of_some (bind_of_some hspan),
    bind_of_none (newline_of_ne hfeed hreturn rest)]

theorem basicPiece_escaped (hquote : c ≠ '"') (rest : List Char) :
    basicPiece ((escaped true c).toList ++ rest) = some ([c], rest) := by
  by_cases hline : c = '\n'
  · subst hline
    rfl
  · have hjoined : joinedLine ((escaped true c).toList ++ rest) = none := by
      rcases escaped_cases true c with ⟨e, more, h, hgap, hfeed, hreturn⟩ | ⟨h, hslash, -⟩
      · rw [h]
        exact joinedLine_slash hgap hfeed hreturn _
      · rw [h]
        exact joinedLine_of_ne hslash _
    rw [basicPiece, orElse_of_none hjoined]
    apply orElse_of_some
    rw [bind_of_some (basicChar_escaped hquote (fun _ => hline) rest)]
    rfl

theorem basicPiece_slash_quote (rest : List Char) :
    basicPiece (['\\', '"'] ++ rest) = some (['"'], rest) := by
  have hjoined : joinedLine ('\\' :: '"' :: rest) = none :=
    joinedLine_slash (by decide) (by decide) (by decide) rest
  have hchar : basicChar ('\\' :: '"' :: rest) = some ('"', rest) := basicChar_escape rfl
  rw [basicPiece]
  apply (orElse_of_none hjoined).trans
  apply orElse_of_some
  rw [bind_of_some hchar]
  rfl

theorem head?_escapedFrom (run : Nat) (h : cs.head? ≠ some '"') :
    (escapedFrom true run cs).toList = (escapedFrom true 0 cs).toList ∧
      (escapedFrom true 0 cs).toList.head? ≠ some '"' := by
  cases cs with
  | nil => exact ⟨rfl, by simp [escapedFrom]⟩
  | cons c cs =>
    have hc : c ≠ '"' := by simpa using h
    rw [toList_escapedFrom_cons run hc, toList_escapedFrom_cons 0 hc]
    refine ⟨rfl, ?_⟩
    rcases escaped_cases true c with ⟨e, more, he, -⟩ | ⟨he, -⟩
    · simp [he]
    · simpa [he] using hc

/-- By the quotation marks in a row: none, one or two of them, or three with whatever follows. -/
theorem run_induction (q : Char) {P : List Char → Prop} (nil : P [])
    (cons : ∀ c cs, c ≠ q → P cs → P (c :: cs))
    (run : ∀ k cs, k = 1 ∨ k = 2 → cs.head? ≠ some q → P cs → P (List.replicate k q ++ cs))
    (triple : ∀ cs, P cs → P (q :: q :: q :: cs)) (cs : List Char) : P cs := by
  match cs with
  | [] => exact nil
  | c :: cs =>
    by_cases hc : c = q
    · subst hc
      by_cases h1 : cs.head? = some c
      · obtain ⟨cs, rfl⟩ : ∃ more, cs = c :: more := List.head?_eq_some_iff.1 h1
        by_cases h2 : cs.head? = some c
        · obtain ⟨cs, rfl⟩ : ∃ more, cs = c :: more := List.head?_eq_some_iff.1 h2
          exact triple cs (run_induction c nil cons run triple cs)
        · exact run 2 cs (.inr rfl) h2 (run_induction c nil cons run triple cs)
      · exact run 1 cs (.inl rfl) h1 (run_induction c nil cons run triple cs)
    · exact cons c cs hc (run_induction q nil cons run triple cs)
termination_by cs.length

/-- Of three and more quotation marks in a row every third one is escaped. -/
theorem shows_escapedFrom (cs : List Char) :
    Shows '"' basicPiece (escapedFrom true 0 cs).toList cs := by
  have hplain (run : Nat) (hrun : run < 2) (cs : List Char) :
      (escapedFrom true run ('"' :: cs)).toList =
        '"' :: (escapedFrom true (run + 1) cs).toList := by
    rw [escapedFrom, if_pos rfl, if_pos (by simpa using hrun), String.toList_append]
    rfl
  induction cs using run_induction '"' with
  | nil => exact .nil
  | cons c cs hc ih =>
    rw [toList_escapedFrom_cons 0 hc]
    refine .piece ?_ (basicPiece_escaped hc) ih
    rcases escaped_cases true c with ⟨e, more, he, -⟩ | ⟨he, -⟩
    · exact ⟨'\\', e :: more, he, by decide⟩
    · exact ⟨c, [], he, hc⟩
  | run k cs hk hcs ih =>
    obtain ⟨heq, hhead⟩ := head?_escapedFrom k hcs
    have htext : (escapedFrom true 0 (List.replicate k '"' ++ cs)).toList =
        List.replicate k '"' ++ (escapedFrom true 0 cs).toList := by
      rw [← heq]
      rcases hk with rfl | rfl
      · exact hplain 0 (by decide) cs
      · exact (hplain 0 (by decide) _).trans (congrArg _ (hplain 1 (by decide) cs))
    rw [htext]
    exact .quotes k hk hhead ih
  | triple cs ih =>
    have hescaped : (escapedFrom true 2 ('"' :: cs)).toList =
        ['\\', '"'] ++ (escapedFrom true 0 cs).toList := String.toList_append
    rw [hplain 0 (by decide), hplain 1 (by decide), hescaped]
    exact .quotes 2 (.inr rfl) (by simp)
      (.piece ⟨'\\', ['"'], rfl, by decide⟩ basicPiece_slash_quote ih)

def literalPiece : Scan (List Char) :=
  (do return [← satisfy fun c => isStringChar c && c != '\'']) <|> lineBreak

theorem literalPiece_cons (hquote : c ≠ '\'') (hc : c = '\n' ∨ isStringChar c = true)
    (rest : List Char) : literalPiece ([c] ++ rest) = some ([c], rest) := by
  by_cases hline : c = '\n'
  · subst hline
    rfl
  · have hplain := hc.resolve_left hline
    have hchar : satisfy (fun c => isStringChar c && c != '\'') (c :: rest) = some (c, rest) :=
      satisfy_of_pos (by simp [hplain, hquote]) rest
    apply orElse_of_some
    show (satisfy _ >>= _) (c :: rest) = _
    rw [bind_of_some hchar]
    rfl

/-! ### The form -/

section Runs

variable {count : Nat × Nat → Char → Nat × Nat} (hcount : ∀ run longest d,
  count (run, longest) d = if d = q then (run + 1, max longest (run + 1)) else (0, longest))

include hcount

theorem foldl_run_mono (cs : List Char) {run run' longest longest' : Nat} (hrun : run ≤ run')
    (hlongest : longest ≤ longest') :
    (cs.foldl count (run, longest)).2 ≤ (cs.foldl count (run', longest')).2 := by
  induction cs generalizing run run' longest longest' with
  | nil => exact hlongest
  | cons d cs ih =>
    rw [List.foldl_cons, List.foldl_cons, hcount, hcount]
    split
    · exact ih (by omega) (by omega)
    · exact ih (Nat.le_refl _) hlongest

theorem le_foldl_run (cs : List Char) (run longest : Nat) :
    longest ≤ (cs.foldl count (run, longest)).2 := by
  induction cs generalizing run longest with
  | nil => exact Nat.le_refl _
  | cons d cs ih =>
    rw [List.foldl_cons, hcount]
    split
    · exact Nat.le_trans (Nat.le_max_left _ _) (ih _ _)
    · exact ih _ _

theorem le_foldl_replicate (k : Nat) (cs : List Char) {run longest : Nat} (h : run ≤ longest) :
    run + k ≤ ((List.replicate k q ++ cs).foldl count (run, longest)).2 := by
  induction k generalizing run longest with
  | zero => exact Nat.le_trans h (le_foldl_run hcount cs run longest)
  | succ k ih =>
    rw [List.replicate_succ, List.cons_append, List.foldl_cons, hcount, if_pos rfl]
    have := ih (Nat.le_max_right longest (run + 1))
    omega

end Runs

theorem longestRun_le_cons (q c : Char) (cs : List Char) :
    longestRun q cs ≤ longestRun q (c :: cs) :=
  foldl_run_mono (fun _ _ _ => rfl) cs (Nat.zero_le _) (Nat.zero_le _)

theorem le_longestRun (q : Char) (k : Nat) (cs : List Char) :
    k ≤ longestRun q (List.replicate k q ++ cs) := by
  have h : 0 + k ≤ longestRun q (List.replicate k q ++ cs) := by
    refine le_foldl_replicate ?_ k cs (Nat.le_refl 0)
    exact fun _ _ _ => rfl
  omega

theorem shows_literal {cs : List Char} (hplain : ∀ c ∈ cs, c = '\n' ∨ isStringChar c = true)
    (hrun : longestRun '\'' cs ≤ 2) : Shows '\'' literalPiece cs cs := by
  induction cs using run_induction '\'' with
  | nil => exact .nil
  | cons c cs hc ih =>
    have ih := ih (fun c hm => hplain c (List.mem_cons_of_mem _ hm))
      (Nat.le_trans (longestRun_le_cons _ c cs) hrun)
    exact .piece ⟨c, [], rfl, hc⟩ (literalPiece_cons hc (hplain c List.mem_cons_self)) ih
  | run k cs hk hcs ih =>
    have hle : longestRun '\'' cs ≤ longestRun '\'' (List.replicate k '\'' ++ cs) := by
      rcases hk with rfl | rfl
      · exact longestRun_le_cons _ _ cs
      · exact Nat.le_trans (longestRun_le_cons _ _ cs) (longestRun_le_cons _ _ _)
    have ih := ih (fun c hm => hplain c (List.mem_append_right _ hm)) (Nat.le_trans hle hrun)
    exact .quotes k hk hcs ih
  | triple cs _ => exact absurd (Nat.le_trans (le_longestRun '\'' 3 cs) hrun) (by decide)

theorem not_mem_of_longestRun (h : longestRun q cs = 0) : q ∉ cs := by
  induction cs with
  | nil => exact List.not_mem_nil
  | cons c cs ih =>
    intro hm
    have htail := longestRun_le_cons q c cs
    rcases List.mem_cons.1 hm with rfl | hm
    · exact absurd (Nat.le_trans (le_longestRun q 1 cs) (Nat.le_of_eq h)) (by decide)
    · exact ih (by omega) hm

theorem formOf_cases (cs : List Char) :
    formOf cs = .basic ∨ formOf cs = .multilineBasic ∨
    formOf cs = .literal ∧ (∀ c ∈ cs, isStringChar c = true ∧ c ≠ '\'') ∨
    formOf cs = .multilineLiteral ∧ (∀ c ∈ cs, c = '\n' ∨ isStringChar c = true) ∧
      longestRun '\'' cs ≤ 2 := by
  unfold formOf
  dsimp only
  split
  · split
    · exact .inr (.inl rfl)
    · exact .inl rfl
  · next hany =>
    have hplain : ∀ c ∈ cs, c = '\n' ∨ isStringChar c = true := by
      intro c hc
      rw [List.any_eq_true] at hany
      by_cases hline : c = '\n'
      · exact .inl hline
      · refine .inr (Bool.of_not_eq_false fun hno => hany ⟨c, hc, ?_⟩)
        simp [hline, hno]
    split
    · exact .inl rfl
    · split
      · next h =>
        simp only [Bool.and_eq_true, Bool.not_eq_true', decide_eq_true_eq] at h
        refine .inr (.inr (.inl ⟨rfl, fun c hc => ?_⟩))
        have hline : c ≠ '\n' := by
          rintro rfl
          simp [hc] at h
        refine ⟨(hplain c hc).resolve_left hline, ?_⟩
        rintro rfl
        exact not_mem_of_longestRun h.2 hc
      · split
        · exact .inr (.inl rfl)
        · split
          · next h => exact .inr (.inr (.inr ⟨rfl, hplain, h⟩))
          · split
            · exact .inr (.inl rfl)
            · exact .inl rfl

theorem multiline_of_not_prefix {piece : Scan (List Char)} (h : ¬ [q, q, q] <+: text) :
    multiline q piece text = none := by
  refine bind_of_none (exactly_eq_none_iff.2 ?_)
  rwa [String.toList_ofList]

theorem basic_of_ne (hc : c ≠ '"') (rest : List Char) : basic (c :: rest) = none :=
  bind_of_none (exactly_cons_of_ne rfl hc rest)

theorem string_basic (cs : List Char) (hquote : rest.head? ≠ some '"') :
    string ('"' :: ((escapedFrom false 0 cs).toList ++ '"' :: rest)) =
      some (String.ofList cs, rest) := by
  have hmultiline :
      multilineBasic ('"' :: ((escapedFrom false 0 cs).toList ++ '"' :: rest)) = none := by
    refine multiline_of_not_prefix ?_
    rw [List.cons_prefix_cons]
    rintro ⟨-, hprefix⟩
    cases cs with
    | nil =>
      obtain ⟨-, more, rfl⟩ := List.cons_prefix_cons.1 hprefix
      exact hquote rfl
    | cons c cs =>
      by_cases hc : c = '"'
      · subst hc
        rw [toList_escapedFrom_quote] at hprefix
        exact absurd (List.cons_prefix_cons.1 hprefix).1 (by decide)
      · rw [toList_escapedFrom_cons 0 hc] at hprefix
        rcases escaped_cases false c with ⟨e, more, he, -⟩ | ⟨he, -⟩
        · rw [he] at hprefix
          exact absurd (List.cons_prefix_cons.1 hprefix).1 (by decide)
        · rw [he] at hprefix
          exact hc (List.cons_prefix_cons.1 hprefix).1.symm
  rw [string, orElse_of_none hmultiline, orElse_of_some (basic_append cs rest)]

def opening (cs : List Char) : List Char := if cs.contains '\n' then ['\n'] else []

theorem opening_cases (text : List Char)
    (h : ∀ c more, cs = c :: more → c ≠ '\n' →
      ∃ d left, text = d :: left ∧ d ≠ '\n' ∧ d ≠ '\r')
    (hnil : cs = [] → text = []) (hq : q ≠ '\n' ∧ q ≠ '\r') :
    opening cs = ['\n'] ∨
      opening cs = [] ∧ ∀ rest, newline (text ++ (List.replicate 3 q ++ rest)) = none := by
  unfold opening
  split
  · exact .inl rfl
  · next hline =>
    refine .inr ⟨rfl, fun rest => ?_⟩
    cases cs with
    | nil =>
      rw [hnil rfl]
      exact newline_of_ne hq.1 hq.2 _
    | cons c more =>
      have hc : c ≠ '\n' := by
        rintro rfl
        simp at hline
      obtain ⟨d, left, rfl, hfeed, hreturn⟩ := h c more rfl hc
      exact newline_of_ne hfeed hreturn _

theorem multilineBasic_append (cs : List Char) (hrest : rest.head? ≠ some '"') :
    multilineBasic (List.replicate 3 '"' ++ (opening cs ++
      ((escapedFrom true 0 cs).toList ++ (List.replicate 3 '"' ++ rest)))) =
        some (String.ofList cs, rest) := by
  have hpiece (rest : List Char) : basicPiece ('"' :: rest) = none := rfl
  refine multiline_append hpiece hrest (shows_escapedFrom cs) ?_
  refine opening_cases _ (fun c more hcs hc => ?_) (fun hcs => by simp [hcs, escapedFrom])
    (by decide)
  subst hcs
  by_cases hquote : c = '"'
  · subst hquote
    exact ⟨'"', _, String.toList_append, by decide⟩
  · rw [toList_escapedFrom_cons 0 hquote]
    rcases escaped_cases true c with ⟨e, left, he, -⟩ | ⟨he, -, hchar⟩
    · exact ⟨'\\', _, by rw [he]; rfl, by decide⟩
    · refine ⟨c, _, by rw [he]; rfl, hc, ?_⟩
      rintro rfl
      exact absurd (hchar.resolve_left hc) (by decide)

theorem multilineLiteral_append (hplain : ∀ c ∈ cs, c = '\n' ∨ isStringChar c = true)
    (hrun : longestRun '\'' cs ≤ 2) (hrest : rest.head? ≠ some '\'') :
    multilineLiteral (List.replicate 3 '\'' ++ (opening cs ++ (cs ++ (List.replicate 3 '\'' ++
      rest)))) = some (String.ofList cs, rest) := by
  have hpiece (rest : List Char) : literalPiece ('\'' :: rest) = none := rfl
  refine multiline_append hpiece hrest (shows_literal hplain hrun) ?_
  refine opening_cases _ (fun c more hcs hc => ⟨c, more, hcs, hc, ?_⟩) id (by decide)
  subst hcs
  rintro rfl
  exact absurd ((hplain _ List.mem_cons_self).resolve_left hc) (by decide)

theorem multilineBasic_of_ne (hc : c ≠ '"') (rest : List Char) :
    multilineBasic (c :: rest) = none :=
  multiline_of_not_prefix fun h => hc (List.cons_prefix_cons.1 h).1.symm

theorem multilineLiteral_of_literal (h : ∀ c ∈ cs, isStringChar c = true ∧ c ≠ '\'')
    (hrest : rest.head? ≠ some '\'') :
    multilineLiteral ('\'' :: (cs ++ '\'' :: rest)) = none := by
  refine multiline_of_not_prefix ?_
  rw [List.cons_prefix_cons]
  rintro ⟨-, hprefix⟩
  cases cs with
  | nil =>
    obtain ⟨-, more, rfl⟩ := List.cons_prefix_cons.1 hprefix
    exact hrest rfl
  | cons c cs => exact (h c List.mem_cons_self).2 (List.cons_prefix_cons.1 hprefix).1.symm

theorem string_apostrophe (rest : List Char) :
    string ('\'' :: rest) = (multilineLiteral <|> literal) ('\'' :: rest) := by
  rw [string, orElse_of_none (multilineBasic_of_ne (by decide) rest),
    orElse_of_none (basic_of_ne (by decide) rest)]

/-- A string in whatever form it is written is read back, before anything but a quotation mark. -/
theorem string_render (s : String) (hquote : rest.head? ≠ some '"')
    (hapostrophe : rest.head? ≠ some '\'') :
    string ((render s).toList ++ rest) = some (s, rest) := by
  have hs : String.ofList s.toList = s := String.ofList_toList
  have hopening : (if s.toList.contains '\n' then "\n" else "").toList = opening s.toList := by
    unfold opening
    split <;> rfl
  unfold render
  rcases formOf_cases s.toList with hform | hform | ⟨hform, hplain⟩ | ⟨hform, hplain, hrun⟩
  · simp only [hform, String.toList_append, List.append_assoc]
    exact (string_basic s.toList hquote).trans (by rw [hs])
  · have h := multilineBasic_append s.toList hquote
    simp only [hform, String.toList_append, List.append_assoc, hopening]
    exact (orElse_of_some h).trans (by rw [hs])
  · simp only [hform, String.toList_append, List.append_assoc]
    calc string ('\'' :: (s.toList ++ '\'' :: rest))
        = literal ('\'' :: (s.toList ++ '\'' :: rest)) :=
          (string_apostrophe _).trans
            (orElse_of_none (multilineLiteral_of_literal hplain hapostrophe))
      _ = some (s, rest) := (literal_append hplain rest).trans (by rw [hs])
  · have h := multilineLiteral_append hplain hrun hapostrophe
    simp only [hform, String.toList_append, List.append_assoc, hopening]
    exact (string_apostrophe _).trans ((orElse_of_some h).trans (by rw [hs]))

theorem head?_render (s : String) :
    (render s).toList.head? = some '"' ∨ (render s).toList.head? = some '\'' := by
  unfold render
  dsimp only
  split
  · exact .inl (by simp)
  · exact .inr (by simp)
  · exact .inl (by simp)
  · exact .inr (by simp)

end TagWire.Toml

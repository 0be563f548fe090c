import HostSheet.Css.Formatter
import HostSheet.Proofs.Sheet.Levels
import HostSheet.Proofs.Sheet.Lexing

/-!
# Quoted strings as text

A quoted string is printed with its quotes and backslashes escaped, and is read back. A line feed is
printed as it is, but may stand in a string only behind a backslash: a text with one is not read
back.
-/

namespace HostSheet

open Grammar

-- ---------------------------------------------------------------------------
-- Escapes
-- ---------------------------------------------------------------------------

theorem escape_cons (c : Char) (cs : List Char) :
    Formatter.escape (c :: cs) =
      (if c = '"' ∨ c = '\\' then ['\\', c] else [c]) ++ Formatter.escape cs := by
  rw [Formatter.escape]
  split <;> rfl

/-- Up to the first line feed, what is escaped is what is read. -/
theorem splitQuoted_escape (cs rest : List Char) :
    splitQuoted '"' (Formatter.escape cs ++ '"' :: rest) =
      if '\n' ∈ cs then none else some (cs, rest) := by
  induction cs with
  | nil => rfl
  | cons c cs ih =>
    by_cases hescape : c = '"' ∨ c = '\\'
    · have hc : '\n' ≠ c := by rcases hescape with rfl | rfl <;> decide
      rw [escape_cons, if_pos hescape, List.append_assoc]
      simp only [List.cons_append, List.nil_append, List.mem_cons, hc, false_or]
      rw [splitQuoted, ih]
      split <;> rfl
    · obtain ⟨hquote, hslash⟩ := not_or.1 hescape
      rw [escape_cons, if_neg hescape, List.append_assoc, List.singleton_append]
      by_cases hc : c = '\n'
      · subst hc
        rw [if_pos List.mem_cons_self]
        rfl
      · rw [splitQuoted_cons hc hslash, if_neg hquote, ih]
        simp only [List.mem_cons, Ne.symm hc, false_or]
        split <;> rfl

theorem toList_quote (x : String) :
    (Formatter.quote x).toList = '"' :: (Formatter.escape x.toList ++ ['"']) := by
  rw [Formatter.quote, String.toList_ofList, List.cons_append]

theorem exists_quoted_escape {cs : List Char} (h : '\n' ∉ cs) (rest : List Char) :
    ∃ body, Quoted '"' body cs ∧ Formatter.escape cs ++ '"' :: rest = body ++ '"' :: rest := by
  have hsplit := splitQuoted_escape cs rest
  rwa [if_neg h, splitQuoted_iff (by decide) (by decide)] at hsplit

/-- With a backslash in front of each character, any text can be written. -/
theorem quoted_escapeAll (cs : List Char) : Quoted '"' (cs.flatMap fun c => ['\\', c]) cs := by
  induction cs with
  | nil => exact .nil
  | cons c cs ih => exact .escape ih

-- ---------------------------------------------------------------------------
-- Whole values
-- ---------------------------------------------------------------------------

theorem commaList_of_primary {levels : Nat} {s : List Char} {e : RawExpr}
    (h : Primary levels s e []) : CommaList (Primary levels) s e [] := by
  have hnothing : Trivia [] [] := .done ⟨rfl, rfl⟩
  exact .mk (.mk h.startsItem.2 h (.nil hnothing rfl)) (.none hnothing (by simp))

theorem readWhole_of_primary {s : List Char} {e : RawExpr} (h : Primary maxNesting s e []) :
    readWhole s = .ok e :=
  readWhole_ok.2 ⟨s, [], .done h.startsItem.1, commaList_of_primary h, .done ⟨rfl, rfl⟩⟩

theorem parse_of_quoted {body text : List Char} (h : Quoted '"' body text) :
    Expr.parse (String.ofList ('"' :: (body ++ ['"']))) =
      .ok (.literal (.string (String.ofList text) true)) := by
  have hread : readQuoted.Reads ('"' :: (body ++ ['"'])) (.string (String.ofList text) true) [] :=
    (reads_readQuoted (.inl rfl)).2 ⟨body, text, h, rfl, rfl⟩
  refine Expr.parse_ok.2 ⟨.literal (.string (String.ofList text) true), ?_, rfl⟩
  rw [String.toList_ofList]
  exact readWhole_of_primary (.quoted (.inl rfl) hread)

theorem readQuoted_lineFeed {x : String} (hx : '\n' ∈ x.toList) :
    readQuoted (Formatter.quote x).toList =
      .error ⟨.unterminatedString, (Formatter.quote x).toList⟩ := by
  have hsplit := splitQuoted_escape x.toList []
  rw [if_pos hx] at hsplit
  rw [toList_quote, readQuoted]
  split
  · rfl
  · rename_i hsome
    rw [hsplit] at hsome
    cases hsome

theorem readPrimary_quoted (levels : Nat) {s : List Char} {fault : Fault}
    (h : readQuoted ('"' :: s) = .error fault) : readPrimary levels ('"' :: s) = .error fault := by
  cases levels <;> rw [readPrimary, primaryWith, if_neg (by decide), if_neg (by decide),
    if_pos (.inl rfl), literal, h, error_bind]

theorem readWhole_quoted {s : List Char} {fault : Fault}
    (h : readQuoted ('"' :: s) = .error fault) : readWhole ('"' :: s) = .error fault := by
  have hstart : startsToken ('"' :: s) := startsToken_cons.2 ⟨by decide, by simp⟩
  obtain ⟨_, hblank⟩ := Trivia.done hstart
  rw [readWhole, hblank, ok_bind, readValue, commaList, spaceList, if_neg (by simp [atValueEnd]),
    readPrimary_quoted _ h]
  rfl

theorem parse_quote (x : String) : Expr.parse (Formatter.quote x) =
    if '\n' ∈ x.toList then .error ⟨.unterminatedString, 0⟩
      else .ok (.literal (.string x true)) := by
  split
  · rename_i hx
    have hread := readQuoted_lineFeed hx
    rw [toList_quote] at hread
    have hwhole := readWhole_quoted hread
    rw [← toList_quote] at hwhole
    rw [Expr.parse]
    simp only [hwhole, Fault.inSource, Source.offsetOf, Nat.sub_self]
  · rename_i hx
    obtain ⟨body, hbody, htext⟩ := exists_quoted_escape hx []
    have hparse := parse_of_quoted hbody
    rwa [← htext, ← toList_quote, String.ofList_toList, String.ofList_toList] at hparse

/-- Any text can be the text of a string in a sheet. What is printed for the string is read back as
the same string if there is no line feed in it; otherwise it is no value at all. -/
theorem Formatter.value_quoted_reads_back (f : Formatter) (x : String) :
    (∃ source, Expr.parse source = .ok (.literal (.string x true))) ∧
    ∃ css, f.value (.string x true) = .ok (some css) ∧
      Expr.parse css = if '\n' ∈ x.toList then .error ⟨.unterminatedString, 0⟩
        else .ok (.literal (.string x true)) := by
  refine ⟨?_, quote x, rfl, parse_quote x⟩
  have hparse := parse_of_quoted (quoted_escapeAll x.toList)
  rw [String.ofList_toList] at hparse
  exact ⟨_, hparse⟩

/-- A string with a line feed behind a backslash is read, but not what is printed for it. -/
theorem Formatter.lineFeed_not_read_back :
    Expr.parse "\"a\\\nb\"" = .ok (.literal (.string "a\nb" true)) ∧
    (⟨.expanded, 5⟩ : Formatter).value (.string "a\nb" true) = .ok (some "\"a\nb\"") ∧
    Expr.parse "\"a\nb\"" = .error ⟨.unterminatedString, 0⟩ := by
  have hbody : Quoted '"' ['a', '\\', '\n', 'b'] ['a', '\n', 'b'] :=
    .char (by decide) (by decide) (by decide)
      (.escape (.char (by decide) (by decide) (by decide) .nil))
  have hquote : quote "a\nb" = "\"a\nb\"" := by decide
  have hprinted := parse_quote "a\nb"
  rw [hquote, if_pos (by decide)] at hprinted
  refine ⟨?_, congrArg (Except.ok ∘ some) hquote, hprinted⟩
  have hsource : "\"a\\\nb\"" = String.ofList ('"' :: (['a', '\\', '\n', 'b'] ++ ['"'])) := by
    decide
  have htext : "a\nb" = String.ofList ['a', '\n', 'b'] := by decide
  rw [hsource, htext]
  exact parse_of_quoted hbody

end HostSheet

import HostSheet.Proofs.Session.Failing
import HostSheet.Proofs.Sheet.Blocks
import HostSheet.Proofs.Sheet.Passing
import HostSheet.Proofs.Source.Locating

/-!
# Where errors are reported

An error is reported at a line of the source and shown with the text of that line. The exception is
the end of a source that ends with a line feed: it is located on a line of its own, which is none of
the lines of the source.
-/

namespace HostSheet

variable {σ : Type}

-- ---------------------------------------------------------------------------
-- Places of events
-- ---------------------------------------------------------------------------

namespace Event

def place : Event → Location
  | .dispatch _ _ place _ => place
  | .plain _ _ place _ => place
  | .declare _ _ place _ => place

theorem place_of_failure? {event : Event} {e : CompileError} (h : event.failure? = some e) :
    e.place = event.place := by
  cases event with
  | dispatch name args place outcome => cases outcome <;> cases h; rfl
  | plain name args place text => cases text <;> cases h; rfl
  | declare property value place text => cases text <;> cases h; rfl

end Event

namespace Setting

variable {setting : Setting} {r : Registry σ} {past : List Event} {nodes : List (Node Location)}

theorem place_meet (node : Node Location) : (setting.meet r past node).1.place = node.place := by
  cases node with
  | declaration d => rfl
  | call name args place =>
    rw [meet]
    split <;> rfl

theorem course_places :
    ∀ event ∈ (setting.course r past nodes).1, ∃ node ∈ nodes, event.place = node.place := by
  refine course_elim (motive := fun _ _ nodes events _ =>
    ∀ event ∈ events, ∃ node ∈ nodes, event.place = node.place) (by simp) ?_
  intro r past node nodes events r' ih
  rw [List.forall_mem_cons]
  refine ⟨⟨node, List.mem_cons_self, place_meet node⟩, fun event hevent => ?_⟩
  obtain ⟨other, hother, hplace⟩ := ih event hevent
  exact ⟨other, List.mem_cons_of_mem _ hother, hplace⟩

end Setting

/-- A failure of a sheet is reported at a place of the sheet, where there is more of the source. -/
theorem Session.place_of_failure {s : Session σ} {source : String} {sheet : Sheet Location}
    (hsheet : Sheet.parse source = .ok sheet) {e : CompileError}
    (h : Setting.firstFailure (s.course sheet).1 = some e) :
    ∃ rest, rest <:+ source.toList ∧ rest ≠ [] ∧ e.place = placeIn source.toList rest := by
  obtain ⟨event, hevent, hfailure⟩ := List.exists_of_findSome?_eq_some h
  obtain ⟨node, hnode, hplace⟩ := Setting.course_places event hevent
  have hmem := Sheet.place_mem_places hnode
  obtain ⟨rules, hrules, rfl⟩ := Sheet.parse_ok.1 hsheet
  rw [Sheet.places_mapPlaces] at hmem
  obtain ⟨rest, hrest, hlocated⟩ := List.mem_map.1 hmem
  have hpasses := readRules_passes source.toList
  rw [hrules] at hpasses
  obtain ⟨hsuffix, hne⟩ := hpasses.mem rest hrest
  exact ⟨rest, hsuffix, hne, by rw [Event.place_of_failure? hfailure, hplace, hlocated]⟩

-- ---------------------------------------------------------------------------
-- Lines
-- ---------------------------------------------------------------------------

def Diagnostic.Shows (d : Diagnostic) (source : SourceText) : Prop :=
  ∃ line, source.line? d.line = some line ∧
    ∃ above below, d.snippet = above ++ (line ++ "\n") ++ below

namespace SourceText

variable {s : SourceText} {rest : List Char}

theorem le_lineCount_of_rest (hrest : rest <:+ s.content) (hne : rest ≠ []) :
    (placeIn s.content rest).line ≤ s.lineCount := by
  obtain ⟨before, hcontent⟩ := hrest
  rw [placeIn, ← hcontent, Source.line_locate]
  have hcount : s.content.count '\n' = before.count '\n' + rest.count '\n' := by
    rw [← hcontent, List.count_append]
  by_cases hends : s.content.getLast? = some '\n'
  · rw [s.lineCount_of_ends hends, hcount]
    rw [← hcontent, List.getLast?_append_of_ne_nil before hne] at hends
    have hpos : 0 < rest.count '\n' := List.count_pos_iff.2 (List.mem_of_getLast? hends)
    omega
  · rw [s.lineCount_of_not_ends hends]
    omega

theorem line_end (s : SourceText) : (placeIn s.content []).line = s.content.count '\n' + 1 := by
  have hline := Source.line_locate s.content []
  rwa [List.append_nil] at hline

theorem line_mem_context {line : Nat} (hpos : 1 ≤ line) (hline : line ≤ s.lineCount)
    (radius : Nat) : ∃ text, s.line? line = some text ∧ text ∈ s.context line radius := by
  have hlength := s.length_lines
  have hindex : line - 1 < s.lines.length := by omega
  refine ⟨s.lines[line - 1], ?_, List.mem_of_getElem? (i := line - max (line - radius) 1) ?_⟩
  · rw [line?, if_neg (by omega), List.getElem?_eq_getElem hindex]
  · rw [context, List.getElem?_take_of_lt (by omega), List.getElem?_drop,
      ← List.getElem?_eq_getElem hindex]
    exact congrArg (s.lines[·]?) (by omega)

end SourceText

theorem Diagnostic.ofLocation_shows {severity : Severity} {message : String} {place : Location}
    {source : SourceText} {contextLines : Nat} (hpos : 1 ≤ place.line)
    (hline : place.line ≤ source.lineCount) :
    (ofLocation severity message place source contextLines).Shows source := by
  obtain ⟨text, htext, hmem⟩ := SourceText.line_mem_context hpos hline contextLines
  obtain ⟨above, below, hcontext⟩ := List.append_of_mem hmem
  refine ⟨text, htext, String.join (above.map (· ++ "\n")), String.join (below.map (· ++ "\n")), ?_⟩
  rw [ofLocation, hcontext]
  simp [String.join_append, String.append_assoc]

-- ---------------------------------------------------------------------------
-- Reports
-- ---------------------------------------------------------------------------

namespace Session

/-- The source ends with a line feed, and its end is where it cannot be read. -/
def StopsBelow (source : String) : Prop :=
  source.toList.getLast? = some '\n' ∧
    ∃ e, Sheet.parse source = .error e ∧ e.offset = source.utf8ByteSize

theorem offset_eq_iff {source : String} {fault : Fault} (h : fault.rest <:+ source.toList) :
    (fault.inSource source.toList).offset = source.utf8ByteSize ↔ fault.rest = [] := by
  rw [← Source.byteLength_toList]
  exact Source.offsetOf_eq_byteLength h

/-- An error is reported at a line of the source, and the text of the line is shown. Only where the
end of a last line was reached is it reported at the line below, of which nothing can be shown. -/
theorem compile_points {s : Session σ} {source : String} {d : Diagnostic}
    (h : (s.compile source).1 = .error d) :
    let text := SourceText.ofString s.info.sourceName source
    1 ≤ d.line ∧ (¬ StopsBelow source → d.line ≤ text.lineCount ∧ d.Shows text) ∧
      (StopsBelow source → d.line = text.lineCount + 1 ∧ text.line? d.line = none) := by
  intro text
  obtain ⟨rest, message, hrest, hstops, rfl⟩ : ∃ rest message, rest <:+ text.content ∧
      (StopsBelow source ↔ text.content.getLast? = some '\n' ∧ rest = []) ∧
      d = s.report source .error message (placeIn text.content rest) := by
    cases hparse : Sheet.parse source with
    | error e =>
      rw [compile_of_unreadable hparse] at h
      cases h
      have hpasses := readRules_passes source.toList
      rw [Sheet.parse] at hparse
      cases hread : readRules source.toList with
      | ok rules => simp [hread] at hparse
      | error fault =>
        rw [hread] at hpasses
        simp only [hread, Except.error.injEq] at hparse
        subst hparse
        refine ⟨fault.rest, _, hpasses, ?_, rfl⟩
        rw [StopsBelow, Sheet.parse, hread, ← offset_eq_iff hpasses]
        simp [text, SourceText.ofString]
    | ok sheet =>
      obtain ⟨e, hfailure, rfl⟩ := (compile_error_iff hparse).1 h
      obtain ⟨rest, hrest, hne, hplace⟩ := place_of_failure hparse hfailure
      refine ⟨rest, _, hrest, ?_, by rw [hplace]; rfl⟩
      simp [StopsBelow, hparse, hne]
  have hpos : 1 ≤ (placeIn text.content rest).line := by
    obtain ⟨before, hcontent⟩ := hrest
    rw [placeIn, ← hcontent, Source.line_locate]
    omega
  refine ⟨hpos, fun hnot => ?_, fun hends => ?_⟩
  · have hline : (placeIn text.content rest).line ≤ text.lineCount := by
      by_cases hne : rest = []
      · subst hne
        rw [hstops, and_iff_left rfl] at hnot
        rw [text.line_end, text.lineCount_of_not_ends hnot]
      · exact SourceText.le_lineCount_of_rest hrest hne
    exact ⟨hline, Diagnostic.ofLocation_shows hpos hline⟩
  · obtain ⟨hends, rfl⟩ := hstops.1 hends
    have hline : (placeIn text.content []).line = text.lineCount + 1 := by
      rw [text.line_end, text.lineCount_of_ends hends]
    refine ⟨hline, ?_⟩
    have hlength := text.length_lines
    change text.line? (placeIn text.content []).line = none
    rw [SourceText.line?, if_neg (by omega), List.getElem?_eq_none (by omega)]

/-- A source that stops being readable on its last line. -/
theorem compile_points_last :
    let s : Session Unit := .ofConfig 0 {} ()
    ∃ d, (s.compile "a \x7b\n  b;\n").1 = .error d ∧ d.line = 2 ∧ 1 ≤ d.line ∧
      d.Shows (.ofString s.info.sourceName "a \x7b\n  b;\n") := by
  intro s
  have hcompile : (s.compile "a \x7b\n  b;\n").1 = .error
      ⟨.error, "expected \":\".", 2, 3, "stdin", "a \x7b\n  b;\n"⟩ := by decide +kernel
  have hparse : Sheet.parse "a \x7b\n  b;\n" = .error ⟨.expected ':', 6⟩ :=
    map_error.1 (show (Sheet.parse "a \x7b\n  b;\n").map (fun _ => ()) = _ by decide +kernel)
  have hreadable : ¬ StopsBelow "a \x7b\n  b;\n" := by
    rintro ⟨-, e, he, hoffset⟩
    cases hparse.symm.trans he
    exact absurd hoffset (by decide)
  obtain ⟨hpos, hshows, -⟩ := compile_points hcompile
  exact ⟨_, hcompile, rfl, hpos, (hshows hreadable).2⟩

/-- Where the last line ends inside a block, the error is reported at the line below, and without
context nothing is shown at all. -/
theorem open_block_points_below :
    let s : Session Unit := .ofConfig 0 { compile := { contextLines := 0 } } ()
    let text := SourceText.ofString s.info.sourceName "a \x7b\n"
    ∃ d, (s.compile "a \x7b\n").1 = .error d ∧ d.line = 2 ∧ text.lineCount = 1 ∧ d.snippet = "" ∧
      ¬ (1 ≤ d.line ∧ d.line ≤ text.lineCount ∧ d.Shows text) := by
  intro s text
  have hcompile : (s.compile "a \x7b\n").1 = .error
      ⟨.error, "expected \"\x7d\".", 2, 1, "stdin", ""⟩ := by decide +kernel
  have hlines : text.lineCount = 1 := by decide +kernel
  refine ⟨_, hcompile, rfl, hlines, rfl, fun h => ?_⟩
  have hline : 2 ≤ text.lineCount := h.2.1
  rw [hlines] at hline
  exact absurd hline (by decide)

end Session

end HostSheet
